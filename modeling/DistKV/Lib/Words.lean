/-
The words of a list, set apart by separators.

`next` skips separators and takes what follows up to the next one, and `split` goes on until
nothing is left.  A list is its words with one separator between each two exactly if it has
been put together like this, and words that are put together are split again.
-/
import Mathlib.Data.List.TakeWhile

namespace Words

variable {α : Type*} (sep : α → Bool)

/-- The next word and what is left behind it, if there is one. -/
def next (s : List α) : Option (List α × List α) :=
  match s.dropWhile sep with
  | [] => none
  | a :: rest => some (a :: rest.takeWhile (!sep ·), rest.dropWhile (!sep ·))

/-- No more than `n` words. -/
def take : Nat → List α → List (List α)
  | 0, _ => []
  | n + 1, s =>
      match next sep s with
      | none => []
      | some (w, rest) => w :: take n rest

/-- All of them; there are not more than the list is long. -/
def split (s : List α) : List (List α) := take sep s.length s

/-- A word is not empty, and no separator is in it. -/
structure IsWord (w : List α) : Prop where
  ne_nil : w ≠ []
  clean : ∀ a ∈ w, sep a = false

variable {sep} {s w rest : List α} {a : α}

theorem length_of_next (h : next sep s = some (w, rest)) : rest.length < s.length := by
  unfold next at h
  split at h
  · cases h
  · rename_i b tail htail
    cases h
    have hdrop := (List.dropWhile_suffix sep (l := s)).length_le
    have hrest := (List.dropWhile_suffix (!sep ·) (l := tail)).length_le
    rw [htail, List.length_cons] at hdrop
    omega

theorem take_nil (n : Nat) : take sep n [] = [] := by
  cases n with
  | zero => rfl
  | succ n => rfl

theorem take_succ (n : Nat) (s : List α) : take sep (n + 1) s =
    match next sep s with
    | none => []
    | some (w, rest) => w :: take sep n rest := rfl

/-- How many words may be taken is of no account when they may all be. -/
theorem take_of_le {n m : Nat} (hn : s.length ≤ n) (hm : s.length ≤ m) :
    take sep n s = take sep m s := by
  induction n generalizing s m with
  | zero =>
      rw [List.length_eq_zero_iff.mp (Nat.le_zero.mp hn), take_nil, take_nil]
  | succ n ih =>
      cases m with
      | zero => rw [List.length_eq_zero_iff.mp (Nat.le_zero.mp hm), take_nil, take_nil]
      | succ m =>
          rw [take_succ, take_succ]
          rcases hnext : next sep s with _ | ⟨w, rest⟩
          · rfl
          · have hlt := length_of_next hnext
            exact congrArg (w :: ·) (ih (by omega) (by omega))

theorem split_eq (s : List α) : split sep s =
    match next sep s with
    | none => []
    | some (w, rest) => w :: split sep rest := by
  have hsplit : split sep s = take sep (s.length + 1) s := take_of_le (le_refl _) (by omega)
  rw [hsplit, take_succ]
  rcases hnext : next sep s with _ | ⟨w, rest⟩
  · rfl
  · have hlt := length_of_next hnext
    exact congrArg (w :: ·) (take_of_le (by omega) (le_refl _))

/-! ### Reading words -/

theorem next_sep (ha : sep a = true) (s : List α) : next sep (a :: s) = next sep s := by
  unfold next
  rw [List.dropWhile_cons_of_pos ha]

theorem next_word (hw : IsWord sep w) (hs : ∀ a ∈ s.head?, sep a = true) :
    next sep (w ++ s) = some (w, s) := by
  obtain ⟨b, v, rfl⟩ := List.exists_cons_of_ne_nil hw.ne_nil
  have hb : ¬ sep b = true := by
    rw [hw.clean b List.mem_cons_self]
    exact Bool.false_ne_true
  have hclean : ∀ c ∈ v, (!sep c) = true := fun c hc => by
    rw [hw.clean c (List.mem_cons_of_mem b hc)]
    rfl
  have htake : s.takeWhile (!sep ·) = [] := by
    cases s with
    | nil => rfl
    | cons c s => exact List.takeWhile_cons_of_neg (by simp [hs c rfl])
  have hdrop : s.dropWhile (!sep ·) = s := by
    cases s with
    | nil => rfl
    | cons c s => exact List.dropWhile_cons_of_neg (by simp [hs c rfl])
  unfold next
  rw [List.cons_append, List.dropWhile_cons_of_neg hb]
  dsimp only
  rw [List.takeWhile_append_of_pos hclean, List.dropWhile_append_of_pos hclean, htake, hdrop,
    List.append_nil]

/-- A word can be checked. -/
theorem isWord_of_all (hne : w ≠ []) (hall : w.all (!sep ·) = true) : IsWord sep w := by
  refine ⟨hne, fun c hc => ?_⟩
  have hclean := List.all_eq_true.mp hall c hc
  rwa [Bool.not_eq_true'] at hclean

theorem isWord_of_next (h : next sep s = some (w, rest)) : IsWord sep w := by
  unfold next at h
  split at h
  · cases h
  · rename_i b tail htail
    cases h
    refine ⟨List.cons_ne_nil b _, fun c hc => ?_⟩
    rcases List.mem_cons.mp hc with rfl | hc
    · have hhead := List.head_dropWhile_not sep (l := s) (by rw [htail]; exact List.cons_ne_nil _ _)
      simpa [htail] using hhead
    · simpa using List.mem_takeWhile_imp hc

/-! ### The first word -/

theorem next_eq_none_iff : next sep s = none ↔ ∀ a ∈ s, sep a = true := by
  rw [← List.dropWhile_eq_nil_iff]
  unfold next
  cases s.dropWhile sep with
  | nil => exact iff_of_true rfl rfl
  | cons a rest => exact iff_of_false (Option.some_ne_none _) (List.cons_ne_nil a rest)

theorem next_seps {seps : List α} (h : ∀ a ∈ seps, sep a = true) (s : List α) :
    next sep (seps ++ s) = next sep s := by
  induction seps with
  | nil => rfl
  | cons a seps ih =>
      rw [List.cons_append, next_sep (h a List.mem_cons_self)]
      exact ih fun b hb => h b (List.mem_cons_of_mem a hb)

/-- The next word stands behind separators, and ends the list or has one behind it. -/
theorem next_eq_some_iff : next sep s = some (w, rest) ↔ ∃ seps, s = seps ++ (w ++ rest) ∧
    (∀ a ∈ seps, sep a = true) ∧ IsWord sep w ∧ ∀ a ∈ rest.head?, sep a = true := by
  constructor
  · intro h
    have hword := isWord_of_next h
    unfold next at h
    split at h
    · cases h
    · rename_i b tail htail
      cases h
      refine ⟨s.takeWhile sep, ?_, fun a ha => List.mem_takeWhile_imp ha, hword, fun a ha => ?_⟩
      · rw [List.cons_append, List.takeWhile_append_dropWhile, ← htail,
          List.takeWhile_append_dropWhile]
      · have hhead := List.head?_dropWhile_not (!sep ·) tail
        rw [Option.mem_def.mp ha] at hhead
        simpa using hhead
  · rintro ⟨seps, rfl, hseps, hword, hrest⟩
    rw [next_seps hseps, next_word hword hrest]

theorem head?_split (s : List α) : (split sep s).head? = (next sep s).map Prod.fst := by
  rw [split_eq]
  cases next sep s with
  | none => rfl
  | some p => rfl

theorem split_sep (ha : sep a = true) (s : List α) : split sep (a :: s) = split sep s := by
  rw [split_eq, next_sep ha, ← split_eq]

theorem split_word (hw : IsWord sep w) : split sep w = [w] := by
  have hnext := next_word hw (s := []) fun a ha => by cases ha
  rw [List.append_nil] at hnext
  rw [split_eq, hnext]
  rfl

theorem split_word_append (hw : IsWord sep w) (ha : sep a = true) (s : List α) :
    split sep (w ++ a :: s) = w :: split sep s := by
  have hnext := next_word hw (s := a :: s) fun b hb => by
    cases hb
    exact ha
  rw [split_eq, hnext]
  exact congrArg (w :: ·) (split_sep ha s)

theorem isWord_of_mem_split (hw : w ∈ split sep s) : IsWord sep w := by
  induction hn : s.length using Nat.strong_induction_on generalizing s with
  | _ n ih =>
      rw [split_eq] at hw
      rcases hnext : next sep s with _ | ⟨v, rest⟩
      · rw [hnext] at hw
        cases hw
      · rw [hnext] at hw
        rcases List.mem_cons.mp hw with rfl | hw
        · exact isWord_of_next hnext
        · exact ih rest.length (hn ▸ length_of_next hnext) hw rfl

/-! ### Putting words together -/

/-- Words with one separator between each two. -/
def join (a : α) : List (List α) → List α
  | [] => []
  | [w] => w
  | w :: ws => w ++ a :: join a ws

theorem split_join (ha : sep a = true) {ws : List (List α)} (hws : ∀ w ∈ ws, IsWord sep w) :
    split sep (join a ws) = ws := by
  induction ws with
  | nil => rfl
  | cons w ws ih =>
      have hw := hws w List.mem_cons_self
      cases ws with
      | nil => exact split_word hw
      | cons v ws =>
          have hrest := ih fun u hu => hws u (List.mem_cons_of_mem w hu)
          show split sep (w ++ a :: join a (v :: ws)) = _
          rw [split_word_append hw ha, hrest]

/-- **Which lists their words give back.** -/
theorem join_split_iff (ha : sep a = true) : split sep s ≠ [] ∧ join a (split sep s) = s ↔
    ∃ ws, ws ≠ [] ∧ (∀ w ∈ ws, IsWord sep w) ∧ s = join a ws := by
  constructor
  · rintro ⟨hne, hsame⟩
    exact ⟨split sep s, hne, fun w hw => isWord_of_mem_split hw, hsame.symm⟩
  · rintro ⟨ws, hne, hws, rfl⟩
    rw [split_join ha hws]
    exact ⟨hne, rfl⟩

end Words
