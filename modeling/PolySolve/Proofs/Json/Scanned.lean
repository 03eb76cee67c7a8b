import PolySolve.Proofs.Json.RoundTrip

/-!
# What is read can be written

In a value that is read from a text the integers are not too long, the names of
an object differ and containers are not too deep within others. All that can
keep it from being written is half of a surrogate pair in one of its strings.

* `Encodable`: values without such halves;
* `givesWritable`: what the reader gives, a container after what it holds;
* `writable_iff`: the values of whole texts;
* `ofText_brackets`: texts with too many containers within each other.
-/

namespace PolySolve.Json

open Text Decimal

/-! ## The strings of a value -/

/-- A string of a value or of one within it, or a name of a member. -/
inductive HasString : Json → List CodePoint → Prop
  | whole (s : List CodePoint) : HasString (.string s) s
  | item {v : Json} {items : List Json} {s : List CodePoint} :
    v ∈ items → HasString v s → HasString (.array items) s
  | name {m : List CodePoint × Json} {ms : Members} : m ∈ ms → HasString (.object ms) m.1
  | member {m : List CodePoint × Json} {ms : Members} {s : List CodePoint} :
    m ∈ ms → HasString m.2 s → HasString (.object ms) s

/-- A value whose strings are texts. -/
def Encodable (v : Json) : Prop := ∀ s, HasString v s → Unpaired s

theorem Encodable.item {v : Json} {items : List Json} (h : Encodable (.array items))
    (hv : v ∈ items) : Encodable v := fun s hs => h s (.item hv hs)

theorem Encodable.name {m : List CodePoint × Json} {ms : Members} (h : Encodable (.object ms))
    (hm : m ∈ ms) : Unpaired m.1 := h _ (.name hm)

theorem Encodable.member {m : List CodePoint × Json} {ms : Members} (h : Encodable (.object ms))
    (hm : m ∈ ms) : Encodable m.2 := fun s hs => h s (.member hm hs)

/-- The strings of a value that can be written are texts. -/
theorem Writable.encodable {depth : Nat} {v : Json} (h : Writable depth v) : Encodable v := by
  intro s hs
  induction hs generalizing depth with
  | whole s =>
    simp only [Writable] at h
    exact h
  | item hv _ ih =>
    cases depth with
    | zero => exact h.elim
    | succ depth =>
      simp only [Writable] at h
      exact ih (h _ hv)
  | name hm =>
    cases depth with
    | zero => exact h.elim
    | succ depth =>
      simp only [Writable] at h
      exact (h.2 _ hm).1
  | member hm _ ih =>
    cases depth with
    | zero => exact h.elim
    | succ depth =>
      simp only [Writable] at h
      exact ih (h.2 _ hm).2

/-! ## Words and numbers -/

/-- The result of a step that goes on with another reading. -/
theorem exists_of_map_eq_ok {ε α β : Type} {x : Except ε α} {f : α → β} {b : β}
    (h : x.map f = .ok b) : ∃ a, x = .ok a ∧ f a = b := by
  cases x with
  | error e => contradiction
  | ok a => exact ⟨a, rfl, Except.ok.inj h⟩

theorem exists_of_bind_eq_ok {ε α β : Type} {x : Except ε α} {f : α → Except ε β} {b : β}
    (h : x.bind f = .ok b) : ∃ a, x = .ok a ∧ f a = .ok b := by
  cases x with
  | error e => contradiction
  | ok a => exact ⟨a, rfl, h⟩

theorem writable_of_word (depth : Nat) {w : List Char} {v : Json} (h : (w, v) ∈ words) :
    Writable depth v := by
  simp only [words, List.mem_cons, List.not_mem_nil, or_false, Prod.mk.injEq] at h
  rcases h with ⟨-, rfl⟩ | ⟨-, rfl⟩ | ⟨-, rfl⟩ | ⟨-, rfl⟩ | ⟨-, rfl⟩ | ⟨-, rfl⟩
  all_goals simp only [Writable]

/-- The digits of an integer are no more than those it was read from. -/
theorem length_digitChars_digitsValue {ds : List Char} (h : ds.length ≤ maxIntegerDigits) :
    (digitChars (digitsValue ds)).length ≤ maxIntegerDigits := by
  by_cases hne : ds = []
  · subst hne
    show (digitChars 0).length ≤ maxIntegerDigits
    decide
  · exact (length_digitChars_digitsValue_le hne).trans h

theorem writable_value (depth : Nat) {n : Numeral} {v : Json} (h : n.value = .ok v) :
    Writable depth v := by
  unfold Numeral.value at h
  split at h
  · split at h
    · contradiction
    · rename_i hlong
      obtain rfl := Except.ok.inj h
      have habs : (if n.negative then -(digitsValue n.whole : Int) else digitsValue n.whole).natAbs =
          digitsValue n.whole := by
        split <;> omega
      simp only [Writable, habs]
      exact length_digitChars_digitsValue (Nat.not_lt.1 hlong)
  · obtain rfl := Except.ok.inj h
    simp only [Writable]

theorem writable_scanPlain (depth : Nat) {cs rest : List Char} {v : Json}
    (h : scanPlain cs = .ok (v, rest)) : Writable depth v := by
  unfold scanPlain at h
  split at h
  · rename_i w u hfind
    obtain ⟨rfl, -⟩ := Prod.mk.inj (Except.ok.inj h)
    exact writable_of_word depth (List.mem_of_find?_eq_some hfind)
  · split at h
    · obtain ⟨u, hu, heq⟩ := exists_of_map_eq_ok h
      obtain ⟨rfl, -⟩ := Prod.mk.inj heq
      exact writable_value depth hu
    · contradiction

/-! ## Containers -/

/-- The values that are read in `n` steps can be written. Each member is taken for itself, as a name
that comes again drops the value before, which may have strings that are no texts. -/
structure GivesWritable (n : Nat) : Prop where
  value : ∀ {depth : Nat} {cs rest : List Char} {v : Json},
    scanValue n depth cs = .ok (v, rest) → Encodable v → Writable depth v
  items : ∀ {depth : Nat} {cs rest : List Char} {vs : List Json},
    scanItems n depth cs = .ok (vs, rest) → ∀ v ∈ vs, Encodable v → Writable depth v
  members : ∀ {depth : Nat} {cs rest : List Char} {ms : Members},
    scanMembers n depth cs = .ok (ms, rest) → ∀ m ∈ ms, Encodable m.2 → Writable depth m.2

theorem GivesWritable.value_succ {n depth : Nat} {cs rest : List Char} {v : Json}
    (hn : GivesWritable n) (h : scanValue (n + 1) depth cs = .ok (v, rest)) (he : Encodable v) :
    Writable depth v := by
  rw [scanValue.eq_def] at h
  dsimp only at h
  split at h
  · obtain ⟨⟨s, r⟩, -, heq⟩ := exists_of_map_eq_ok h
    obtain ⟨rfl, -⟩ := Prod.mk.inj heq
    simp only [Writable]
    exact he s (.whole s)
  · split at h
    · contradiction
    · rename_i hdepth _
      obtain ⟨rfl, -⟩ := Prod.mk.inj (Except.ok.inj h)
      obtain ⟨d, rfl⟩ := Nat.exists_eq_succ_of_ne_zero hdepth
      simp only [Writable]
      exact List.forall_mem_nil _
    · obtain ⟨⟨items, r⟩, hitems, heq⟩ := exists_of_map_eq_ok h
      obtain ⟨rfl, -⟩ := Prod.mk.inj heq
      simp only [Writable]
      exact fun u hu => hn.items hitems u hu (he.item hu)
  · split at h
    · contradiction
    · rename_i hdepth _
      obtain ⟨rfl, -⟩ := Prod.mk.inj (Except.ok.inj h)
      obtain ⟨d, rfl⟩ := Nat.exists_eq_succ_of_ne_zero hdepth
      simp only [Writable]
      exact ⟨List.nodup_nil, List.forall_mem_nil _⟩
    · obtain ⟨⟨ms, r⟩, hms, heq⟩ := exists_of_map_eq_ok h
      obtain ⟨rfl, -⟩ := Prod.mk.inj heq
      simp only [Writable]
      exact ⟨Members.nodup_ofWritten ms, fun m hm => ⟨he.name hm,
        hn.members hms m (Members.mem_ofWritten hm) (he.member hm)⟩⟩
  · exact writable_scanPlain depth h

theorem GivesWritable.items_succ {n depth : Nat} {cs rest : List Char} {vs : List Json}
    (hn : GivesWritable n) (h : scanItems (n + 1) depth cs = .ok (vs, rest)) :
    ∀ v ∈ vs, Encodable v → Writable depth v := by
  rw [scanItems.eq_def] at h
  dsimp only at h
  obtain ⟨⟨v, r⟩, hv, h⟩ := exists_of_bind_eq_ok h
  dsimp only at h
  split at h
  · obtain ⟨rfl, -⟩ := Prod.mk.inj (Except.ok.inj h)
    exact List.forall_mem_singleton.2 (hn.value hv)
  · obtain ⟨⟨us, r'⟩, hus, h⟩ := exists_of_bind_eq_ok h
    obtain ⟨rfl, -⟩ := Prod.mk.inj (Except.ok.inj h)
    exact List.forall_mem_cons.2 ⟨hn.value hv, hn.items hus⟩
  · contradiction

theorem GivesWritable.members_succ {n depth : Nat} {cs rest : List Char} {ms : Members}
    (hn : GivesWritable n) (h : scanMembers (n + 1) depth cs = .ok (ms, rest)) :
    ∀ m ∈ ms, Encodable m.2 → Writable depth m.2 := by
  rw [scanMembers.eq_def] at h
  dsimp only at h
  split at h
  · obtain ⟨⟨name, r⟩, -, h⟩ := exists_of_bind_eq_ok h
    dsimp only at h
    split at h
    · obtain ⟨⟨v, r'⟩, hv, h⟩ := exists_of_bind_eq_ok h
      dsimp only at h
      split at h
      · obtain ⟨rfl, -⟩ := Prod.mk.inj (Except.ok.inj h)
        exact List.forall_mem_singleton.2 (hn.value hv)
      · obtain ⟨⟨us, r''⟩, hus, h⟩ := exists_of_bind_eq_ok h
        obtain ⟨rfl, -⟩ := Prod.mk.inj (Except.ok.inj h)
        exact List.forall_mem_cons.2 ⟨hn.value hv, hn.members hus⟩
      · contradiction
    · contradiction
  · contradiction

theorem givesWritable (n : Nat) : GivesWritable n := by
  induction n with
  | zero =>
    exact ⟨fun h => by simp only [scanValue, reduceCtorEq] at h,
      fun h => by simp only [scanItems, reduceCtorEq] at h,
      fun h => by simp only [scanMembers, reduceCtorEq] at h⟩
  | succ n ih => exact ⟨ih.value_succ, ih.items_succ, ih.members_succ⟩

/-! ## Whole texts -/

theorem writable_of_scan {depth : Nat} {cs : List Char} {v : Json} (h : scan depth cs = .ok v)
    (he : Encodable v) : Writable depth v := by
  unfold scan at h
  split at h
  · contradiction
  · obtain ⟨⟨u, r⟩, hu, h⟩ := exists_of_bind_eq_ok h
    dsimp only at h
    split at h
    · obtain rfl := Except.ok.inj h
      exact (givesWritable _).value hu he
    · contradiction

/-- The value of a text can be written if its strings are texts. -/
theorem writable_of_ofText {depth : Nat} {cs : List Char} {v : Json}
    (h : ofText depth cs = .ok v) (he : Encodable v) : Writable depth v := by
  unfold ofText at h
  split at h
  · rename_i u hscan
    obtain rfl := Except.ok.inj h
    exact writable_of_scan hscan he
  all_goals contradiction

/-- The values that can be written are those of texts, with strings that are texts. -/
theorem writable_iff {depth : Nat} {v : Json} :
    Writable depth v ↔ (∃ cs, ofText depth cs = .ok v) ∧ Encodable v :=
  ⟨fun h => ⟨⟨_, ofText_valueChars h⟩, h.encodable⟩, fun ⟨⟨_, h⟩, he⟩ => writable_of_ofText h he⟩

/-! ## Texts with too many containers -/

/-- Brackets are read one within the other until there are too many of them. -/
theorem scanValue_brackets {n depth k : Nat} (hn : 2 * depth < n) (hk : depth < k)
    (rest : List Char) :
    scanValue n depth (List.replicate k '[' ++ rest) = .error (.tooDeep .array) := by
  induction depth generalizing n k with
  | zero =>
    obtain ⟨n, rfl⟩ : ∃ m, n = m + 1 := ⟨n - 1, by omega⟩
    obtain ⟨k, rfl⟩ : ∃ j, k = j + 1 := ⟨k - 1, by omega⟩
    rw [List.replicate_succ, List.cons_append, scanValue]
  | succ depth ih =>
    obtain ⟨n, rfl⟩ : ∃ m, n = m + 2 := ⟨n - 2, by omega⟩
    obtain ⟨k, rfl⟩ : ∃ j, k = j + 2 := ⟨k - 2, by omega⟩
    have hinner := ih (n := n) (k := k + 1) (by omega) (by omega)
    rw [List.replicate_succ, List.cons_append] at hinner ⊢
    have hopen : skipSpaces ('[' :: (List.replicate k '[' ++ rest)) =
        '[' :: (List.replicate k '[' ++ rest) := skipSpaces_of_start (by decide) _
    rw [List.replicate_succ, List.cons_append, scanValue_array hopen (by decide), scanItems, hinner]
    rfl

/-- More brackets one after the other than containers are read within each other. -/
theorem ofText_brackets {depth k : Nat} (hk : depth < k) (rest : List Char) :
    ofText depth (List.replicate k '[' ++ rest) = .error (.tooDeep .array) := by
  have hscan : scan depth (List.replicate k '[' ++ rest) = .error (.tooDeep .array) := by
    obtain ⟨k, rfl⟩ : ∃ j, k = j + 1 := ⟨k - 1, by omega⟩
    have hvalue := scanValue_brackets (n := 2 * (List.replicate (k + 1) '[' ++ rest).length + 2)
      (by rw [List.length_append, List.length_replicate]; omega) hk rest
    rw [List.replicate_succ, List.cons_append] at hvalue ⊢
    have hopen : skipSpaces ('[' :: (List.replicate k '[' ++ rest)) =
        '[' :: (List.replicate k '[' ++ rest) := skipSpaces_of_start (by decide) _
    unfold scan
    split
    · rename_i heq
      exact absurd (List.cons.inj heq).1 (by decide)
    · rw [hopen, hvalue]
      rfl
  rw [ofText, hscan]

end PolySolve.Json
