/-
One key, kept at several nodes.

A column says what each node holds for the key.  A write acts on one entry at a
time: an insert that takes only where there is nothing, an update that takes only
where there is something, a delete.  `replicate` puts a write to a primary and then
to a buddy, `fetch` reads the primary and then the buddy, and inserts at the primary
what only the buddy had.  Which requests get through is given node by node: `reads`
are answered, `writes` are carried out.

Nothing here says how primary and buddy are chosen, and they may be one node.
-/
import Mathlib.Logic.Function.Basic

namespace Replica

variable {ν α : Type*}

/-- What a node can be told to do about the key. -/
inductive Write (α : Type*) where
  | insert (a : α)
  | update (a : α)
  | delete
deriving DecidableEq

namespace Write

/-- The value a write brings along. -/
def value : Write α → Option α
  | insert a => some a
  | update a => some a
  | delete => none

def apply : Write α → Option α → Option α
  | insert a, x => some (x.getD a)
  | update a, x => x.map fun _ => a
  | delete, _ => none

@[simp] theorem apply_insert_none (a : α) : (insert a).apply none = some a := rfl

@[simp] theorem apply_insert_some (a b : α) : (insert a).apply (some b) = some b := rfl

@[simp] theorem apply_update_none (a : α) : (update a).apply none = none := rfl

@[simp] theorem apply_update_some (a b : α) : (update a).apply (some b) = some a := rfl

@[simp] theorem apply_delete (x : Option α) : delete.apply x = none := rfl

/-- What a write leaves was there before, or came with it. -/
theorem apply_eq_some {w : Write α} {x : Option α} {a : α} (h : w.apply x = some a) :
    x = some a ∨ w.value = some a := by
  cases w with
  | insert b =>
      cases x with
      | none => exact Or.inr h
      | some c => exact Or.inl h
  | update b =>
      cases x with
      | none => cases h
      | some c => exact Or.inr h
  | delete => cases h

/-- What a write leaves came with it, if an insert finds nothing. -/
theorem value_of_apply {w : Write α} {x : Option α} {a : α}
    (hw : ∀ b, w = insert b → x = none) (h : w.apply x = some a) : w.value = some a := by
  cases w with
  | insert b =>
      rw [hw b rfl] at h
      exact h
  | update b =>
      obtain ⟨_, -, hb⟩ := Option.map_eq_some_iff.mp h
      exact congrArg some hb
  | delete => cases h

/-- Only a delete takes the key away. -/
theorem apply_ne_none {w : Write α} {x : Option α} (hw : w ≠ delete) (hx : x ≠ none) :
    w.apply x ≠ none := by
  intro h
  rcases Option.ne_none_iff_exists'.mp hx with ⟨a, rfl⟩
  cases w with
  | insert b => simp at h
  | update b => simp at h
  | delete => exact hw rfl

end Write

/-- What each node holds for the key. -/
abbrev Column (ν α : Type*) := ν → Option α

/-! ### Reading at one node -/

/-- One request to read, at node `i`. -/
def look (reads : ν → Bool) (i : ν) (col : Column ν α) : Option α :=
  if reads i then col i else none

section

variable {reads : ν → Bool} {i : ν} {col : Column ν α}

theorem look_of_reads (h : reads i = true) : look reads i col = col i := if_pos h

theorem look_eq_some {a : α} (h : look reads i col = some a) : col i = some a := by
  unfold look at h
  split at h
  · exact h
  · cases h

theorem look_eq_none (h : col i = none) : look reads i col = none := by
  unfold look
  rw [h, ite_self]

end

/-! ### What the operations do -/

section Operations

variable [DecidableEq ν]

/-- One request to write, to node `i`. -/
def put (writes : ν → Bool) (w : Write α) (i : ν) (col : Column ν α) : Column ν α :=
  if writes i then Function.update col i (w.apply (col i)) else col

def replicate (writes : ν → Bool) (w : Write α) (p b : ν) (col : Column ν α) : Column ν α :=
  if b = p then put writes w p col else put writes w b (put writes w p col)

def fetch (reads writes : ν → Bool) (p b : ν) (col : Column ν α) : Option α × Column ν α :=
  match look reads p col with
  | some a => (some a, col)
  | none =>
      if b = p then (none, col)
      else
        match look reads b col with
        | some a => (some a, put writes (.insert a) p col)
        | none => (none, col)

variable {reads writes : ν → Bool} {w : Write α} {p b i : ν} {col : Column ν α}

theorem put_congr {writes' : ν → Bool} (h : writes i = writes' i) :
    put writes w i col = put writes' w i col := by
  unfold put
  rw [h]

theorem put_apply_self : put writes w i col i = if writes i then w.apply (col i) else col i := by
  unfold put
  split
  · exact Function.update_self i _ col
  · rfl

theorem put_apply_of_ne {j : ν} (h : j ≠ i) : put writes w i col j = col j := by
  unfold put
  split
  · exact Function.update_of_ne h _ col
  · rfl

/-- Away from its replicas a write changes nothing. -/
theorem replicate_apply_of_ne (hp : i ≠ p) (hb : i ≠ b) :
    replicate writes w p b col i = col i := by
  unfold replicate
  split
  · exact put_apply_of_ne hp
  · rw [put_apply_of_ne hb, put_apply_of_ne hp]

theorem replicate_primary :
    replicate writes w p b col p = if writes p then w.apply (col p) else col p := by
  unfold replicate
  split
  · exact put_apply_self
  · rename_i hne
    rw [put_apply_of_ne (fun h => hne h.symm), put_apply_self]

theorem replicate_buddy :
    replicate writes w p b col b = if writes b then w.apply (col b) else col b := by
  by_cases hbp : b = p
  · rw [hbp]
    exact replicate_primary
  · unfold replicate
    rw [if_neg hbp, put_apply_self, put_apply_of_ne hbp]

/-- A write leaves at a node what was there, or what it makes of that. -/
theorem replicate_apply : replicate writes w p b col i = col i ∨
    replicate writes w p b col i = w.apply (col i) := by
  by_cases hp : i = p
  · rw [hp, replicate_primary]
    split
    · exact Or.inr rfl
    · exact Or.inl rfl
  · by_cases hb : i = b
    · rw [hb, replicate_buddy]
      split
      · exact Or.inr rfl
      · exact Or.inl rfl
    · exact Or.inl (replicate_apply_of_ne hp hb)

/-! The three ways a fetch goes. -/

theorem fetch_of_primary {a : α} (h : look reads p col = some a) :
    fetch reads writes p b col = (some a, col) := by
  unfold fetch
  rw [h]

theorem fetch_of_buddy {a : α} (hp : look reads p col = none) (hne : b ≠ p)
    (hb : look reads b col = some a) :
    fetch reads writes p b col = (some a, put writes (.insert a) p col) := by
  unfold fetch
  simp only [hp, if_neg hne, hb]

theorem fetch_of_neither (hp : look reads p col = none)
    (hb : b = p ∨ look reads b col = none) : fetch reads writes p b col = (none, col) := by
  unfold fetch
  simp only [hp]
  split
  · rfl
  · rename_i hne
    rw [hb.resolve_left hne]

/-- What a fetch returns and leaves, whatever gets through. -/
theorem fetch_cases (reads writes : ν → Bool) (p b : ν) (col : Column ν α) :
    (∃ a, look reads p col = some a ∧ fetch reads writes p b col = (some a, col)) ∨
      (∃ a, look reads p col = none ∧ b ≠ p ∧ look reads b col = some a ∧
        fetch reads writes p b col = (some a, put writes (.insert a) p col)) ∨
      (look reads p col = none ∧ (b = p ∨ look reads b col = none) ∧
        fetch reads writes p b col = (none, col)) := by
  cases hp : look reads p col with
  | some a => exact Or.inl ⟨a, rfl, fetch_of_primary hp⟩
  | none =>
      by_cases hbp : b = p
      · exact Or.inr (Or.inr ⟨rfl, Or.inl hbp, fetch_of_neither hp (Or.inl hbp)⟩)
      · cases hb : look reads b col with
        | some a => exact Or.inr (Or.inl ⟨a, rfl, hbp, rfl, fetch_of_buddy hp hbp hb⟩)
        | none => exact Or.inr (Or.inr ⟨rfl, Or.inr rfl, fetch_of_neither hp (Or.inr hb)⟩)

/-- A fetch that reaches the primary returns what that holds, unless the buddy has
something the primary lacks. -/
theorem fetch_of_reads_primary (hp : reads p = true)
    (hb : col p = none → b = p ∨ look reads b col = none) :
    fetch reads writes p b col = (col p, col) := by
  cases hcol : col p with
  | some a => exact fetch_of_primary ((look_of_reads hp).trans hcol)
  | none => exact fetch_of_neither (look_eq_none hcol) (hb hcol)

/-- What a fetch leaves at a node was there before, or at the buddy. -/
theorem fetch_column {a : α} (h : (fetch reads writes p b col).2 i = some a) :
    col i = some a ∨ i = p ∧ col p = none ∧ col b = some a := by
  obtain ⟨v, -, hf⟩ | ⟨v, -, -, hb, hf⟩ | ⟨-, -, hf⟩ := fetch_cases reads writes p b col
  · rw [hf] at h
    exact Or.inl h
  · rw [hf] at h
    dsimp only at h
    by_cases hi : i = p
    · subst hi
      rw [put_apply_self] at h
      split at h
      · cases hc : col i with
        | some c =>
            rw [hc] at h
            exact Or.inl h
        | none =>
            rw [hc] at h
            refine Or.inr ⟨rfl, rfl, ?_⟩
            rw [look_eq_some hb]
            exact h
      · exact Or.inl h
    · rw [put_apply_of_ne hi] at h
      exact Or.inl h
  · rw [hf] at h
    exact Or.inl h

theorem fetch_apply_of_ne (h : i ≠ p) : (fetch reads writes p b col).2 i = col i := by
  obtain ⟨v, -, hf⟩ | ⟨v, -, -, -, hf⟩ | ⟨-, -, hf⟩ := fetch_cases reads writes p b col
  · rw [hf]
  · rw [hf]
    exact put_apply_of_ne h
  · rw [hf]

/-- What a node holds before a fetch it holds after it. -/
theorem fetch_keeps {a : α} (h : col i = some a) :
    (fetch reads writes p b col).2 i = some a := by
  obtain ⟨v, -, hf⟩ | ⟨v, -, -, -, hf⟩ | ⟨-, -, hf⟩ := fetch_cases reads writes p b col
  · rw [hf]
    exact h
  · rw [hf]
    dsimp only
    by_cases hi : i = p
    · subst hi
      rw [put_apply_self, h]
      split
      · rfl
      · rfl
    · rw [put_apply_of_ne hi]
      exact h
  · rw [hf]
    exact h

end Operations

/-! ### Replicas that agree

Both replicas hold `x` and nobody else holds anything.  As long as everything gets
through, every operation keeps that, and reads see `x`; so they still do when one
of the two goes silent. -/

structure Agreed (p b : ν) (x : Option α) (col : Column ν α) : Prop where
  primary : col p = x
  buddy : col b = x
  others : ∀ i, i ≠ p → i ≠ b → col i = none

namespace Agreed

variable [DecidableEq ν] {reads writes : ν → Bool} {p b : ν} {x : Option α} {col : Column ν α}

theorem replicate (h : Agreed p b x col) (w : Write α) (hp : writes p = true)
    (hb : writes b = true) : Agreed p b (w.apply x) (replicate writes w p b col) where
  primary := by rw [replicate_primary, if_pos hp, h.primary]
  buddy := by rw [replicate_buddy, if_pos hb, h.buddy]
  others := fun i hip hib => by rw [replicate_apply_of_ne hip hib, h.others i hip hib]

/-- What the replicas agree is absent is nowhere. -/
theorem absent (h : Agreed p b (none : Option α) col) (i : ν) : col i = none := by
  by_cases hp : i = p
  · rw [hp]
    exact h.primary
  · by_cases hb : i = b
    · rw [hb]
      exact h.buddy
    · exact h.others i hp hb

/-- Inserting what a replica holds anyway changes nothing. -/
theorem put_insert {a : α} (h : Agreed p b (some a) col) :
    put writes (.insert a) p col = col := by
  unfold put
  split
  · rw [h.primary, Write.apply_insert_some]
    exact Function.update_eq_self_iff.mpr h.primary.symm
  · rfl

/-- A fetch that reaches one of the replicas returns what they agree on. -/
theorem fetch (h : Agreed p b x col) (hr : reads p = true ∨ b ≠ p ∧ reads b = true) :
    fetch reads writes p b col = (x, col) := by
  cases x with
  | none => exact fetch_of_neither (look_eq_none (h.absent p)) (Or.inr (look_eq_none (h.absent b)))
  | some a =>
      by_cases hp : reads p = true
      · exact fetch_of_primary ((look_of_reads hp).trans h.primary)
      · obtain ⟨hne, hb⟩ := hr.resolve_left hp
        have hlook : look reads p col = none := if_neg hp
        rw [fetch_of_buddy hlook hne ((look_of_reads hb).trans h.buddy), h.put_insert]

end Agreed

/-! ### One value only

Wherever the key is, it has the value `a`.  A fetch that reaches both replicas finds
it exactly when one of them has it. -/

def Only (a : α) (col : Column ν α) : Prop := ∀ i, col i = none ∨ col i = some a

namespace Only

variable {reads writes : ν → Bool} {p b : ν} {a : α} {col : Column ν α}

theorem eq_of_eq_some (h : Only a col) {i : ν} {x : α} (hx : col i = some x) : x = a := by
  obtain hi | hi := h i
  · rw [hi] at hx
    cases hx
  · rw [hi] at hx
    cases hx
    rfl

variable [DecidableEq ν]

theorem fetch (h : Only a col) : Only a (fetch reads writes p b col).2 := by
  intro i
  cases hx : (Replica.fetch reads writes p b col).2 i with
  | none => exact Or.inl rfl
  | some x =>
      refine Or.inr ?_
      obtain hold | ⟨-, -, hbuddy⟩ := fetch_column hx
      · rw [h.eq_of_eq_some hold]
      · rw [h.eq_of_eq_some hbuddy]

/-- Whatever a fetch finds is that value. -/
theorem fetch_fst (h : Only a col) :
    (Replica.fetch reads writes p b col).1 = none ∨
      (Replica.fetch reads writes p b col).1 = some a := by
  obtain ⟨x, hx, hf⟩ | ⟨x, -, -, hx, hf⟩ | ⟨-, -, hf⟩ := fetch_cases reads writes p b col
  · rw [hf, h.eq_of_eq_some (look_eq_some hx)]
    exact Or.inr rfl
  · rw [hf, h.eq_of_eq_some (look_eq_some hx)]
    exact Or.inr rfl
  · rw [hf]
    exact Or.inl rfl

theorem fetch_of_held (h : Only a col) (hp : reads p = true) (hb : reads b = true)
    (hheld : col p = some a ∨ col b = some a) :
    (Replica.fetch reads writes p b col).1 = some a := by
  obtain ⟨x, hx, hf⟩ | ⟨x, -, -, hx, hf⟩ | ⟨hpn, hbn, -⟩ := fetch_cases reads writes p b col
  · rw [hf, h.eq_of_eq_some (look_eq_some hx)]
  · rw [hf, h.eq_of_eq_some (look_eq_some hx)]
  · rw [look_of_reads hp] at hpn
    rw [look_of_reads hb] at hbn
    obtain hsome | hsome := hheld
    · rw [hpn] at hsome
      cases hsome
    · obtain hbp | hbnone := hbn
      · rw [hbp, hpn] at hsome
        cases hsome
      · rw [hbnone] at hsome
        cases hsome

end Only

/-! ### What a fetch finds

The first of the two replicas to have the key decides what a fetch returns, if every
request gets through.  A fetch does not change it, and a replicated write acts on it as
on an entry; only an insert must not find the key at the buddy alone. -/

/-- What the first replica to have the key holds. -/
def first (p b : ν) (col : Column ν α) : Option α := (col p).or (col b)

section

variable {reads writes : ν → Bool} {w : Write α} {p b : ν} {col : Column ν α}

theorem first_of_empty (h : ∀ i, col i = none) : first p b col = none := by
  unfold first
  rw [h p, h b]
  rfl

variable [DecidableEq ν]

theorem fetch_fst_eq_first (hp : reads p = true) (hb : reads b = true) :
    (fetch reads writes p b col).1 = first p b col := by
  unfold first
  obtain ⟨v, hv, hf⟩ | ⟨v, hnone, -, hv, hf⟩ | ⟨hnone, hmiss, hf⟩ :=
    fetch_cases reads writes p b col
  · rw [hf, look_eq_some hv]
    rfl
  · rw [look_of_reads hp] at hnone
    rw [hf, hnone, look_eq_some hv]
    rfl
  · rw [look_of_reads hp] at hnone
    rw [look_of_reads hb] at hmiss
    rw [hf, hnone]
    obtain hsame | hmiss := hmiss
    · rw [hsame, hnone]
      rfl
    · rw [hmiss]
      rfl

theorem first_fetch (hp : reads p = true) :
    first p b (fetch reads writes p b col).2 = first p b col := by
  obtain ⟨v, -, hf⟩ | ⟨v, hnone, hne, hv, hf⟩ | ⟨-, -, hf⟩ := fetch_cases reads writes p b col
  · rw [hf]
  · rw [look_of_reads hp] at hnone
    rw [hf]
    dsimp only
    unfold first
    rw [put_apply_self, put_apply_of_ne hne, hnone, look_eq_some hv]
    split
    · rfl
    · rfl
  · rw [hf]

theorem first_replicate (hp : writes p = true) (hb : writes b = true)
    (hw : ∀ a, w = .insert a → first p b col = none) :
    first p b (replicate writes w p b col) = w.apply (first p b col) := by
  unfold first at hw ⊢
  rw [replicate_primary, replicate_buddy, if_pos hp, if_pos hb]
  cases w with
  | insert a =>
      obtain ⟨hpn, hbn⟩ := Option.or_eq_none_iff.mp (hw a rfl)
      rw [hpn, hbn]
      rfl
  | update a =>
      cases col p with
      | none => rfl
      | some x => rfl
  | delete => rfl

end

/-! ### Replicas that do not contradict each other

One of the two may lack the key, but they do not hold two different values.  An insert is
what can make them: where it finds the key at one replica it is refused, and where it
does not it takes. -/

/-- If both replicas have the key, they hold the same for it. -/
def Concur (p b : ν) (col : Column ν α) : Prop :=
  ∀ x y, col p = some x → col b = some y → x = y

/-- If just one of the replicas has the key, it holds `a`. -/
def Fits (a : α) (p b : ν) (col : Column ν α) : Prop :=
  ∀ x, col p = some x ∧ col b = none ∨ col p = none ∧ col b = some x → x = a

theorem concur_self (p : ν) (col : Column ν α) : Concur p p col := by
  intro x y hx hy
  exact Option.some.inj (hx.symm.trans hy)

theorem concur_of_none {p b : ν} {col : Column ν α} (h : col p = none ∨ col b = none) :
    Concur p b col := by
  intro x y hx hy
  rcases h with hp | hb
  · rw [hp] at hx
    cases hx
  · rw [hb] at hy
    cases hy

section

variable [DecidableEq ν] {writes : ν → Bool} {w : Write α} {p b : ν} {col : Column ν α}

/-- A write that reaches both replicas turns them against each other if and only if it
inserts at one of them a value that the other does not hold. -/
theorem concur_replicate_iff (h : Concur p b col) (hp : writes p = true)
    (hb : writes b = true) :
    Concur p b (replicate writes w p b col) ↔ ∀ a, w = .insert a → Fits a p b col := by
  unfold Concur Fits
  rw [replicate_primary, replicate_buddy, if_pos hp, if_pos hb]
  rcases w with a | a | _
  · rcases hcp : col p with _ | x
    · rcases hcb : col b with _ | y
      · simp
      · simp [eq_comm]
    · rcases hcb : col b with _ | y
      · simp
      · simp [h x y hcp hcb]
  · rcases hcp : col p with _ | x
    · simp
    · rcases hcb : col b with _ | y
      · simp
      · simp
  · simp

/-- Copying to the primary what the buddy has does not. -/
theorem Concur.put (h : Concur p b col) {a : α} (hb : col b = some a) :
    Concur p b (put writes (.insert a) p col) := by
  by_cases hbp : b = p
  · rw [hbp]
    exact concur_self p _
  · intro x y hx hy
    rw [put_apply_of_ne hbp] at hy
    rw [put_apply_self] at hx
    rcases hcp : col p with _ | x'
    · rw [hcp] at hx
      split at hx
      · rw [hb] at hy
        exact Option.some.inj (hx.symm.trans hy)
      · cases hx
    · rw [hcp, Write.apply_insert_some, ite_self] at hx
      exact h x y (hcp.trans hx) hy

end

/-- A key that is nowhere stays nowhere, unless it is inserted. -/
theorem replicate_of_empty [DecidableEq ν] {writes : ν → Bool} {w : Write α} {p b : ν}
    {col : Column ν α} (h : ∀ i, col i = none) (hw : ∀ a, w ≠ .insert a) (i : ν) :
    replicate writes w p b col i = none := by
  obtain hr | hr := @replicate_apply ν α _ writes w p b i col
  · rw [hr, h i]
  · rw [hr, h i]
    cases w with
    | insert a => exact absurd rfl (hw a)
    | update a => rfl
    | delete => rfl

/-- Nor does a fetch bring it back. -/
theorem fetch_of_empty [DecidableEq ν] {reads writes : ν → Bool} {p b : ν} {col : Column ν α}
    (h : ∀ i, col i = none) (i : ν) : (fetch reads writes p b col).2 i = none := by
  cases hx : (fetch reads writes p b col).2 i with
  | none => rfl
  | some a =>
      obtain hold | ⟨-, -, hbuddy⟩ := fetch_column hx
      · rw [h i] at hold
        cases hold
      · rw [h b] at hbuddy
        cases hbuddy

/-! ### Writes on their way

A write reaches the primary first and the buddy later, and other writes may come in
between.  The primary is then ahead of the buddy by the writes on their way, and one of
those may overtake others where it makes no difference which comes first. -/

/-- What becomes of an entry when some writes reach it, one after another. -/
def carry (ws : List (Write α)) (x : Option α) : Option α := ws.foldl (fun x w => w.apply x) x

@[simp] theorem carry_nil (x : Option α) : carry [] x = x := rfl

@[simp] theorem carry_cons (w : Write α) (ws : List (Write α)) (x : Option α) :
    carry (w :: ws) x = carry ws (w.apply x) := rfl

theorem carry_append (ws ws' : List (Write α)) (x : Option α) :
    carry (ws ++ ws') x = carry ws' (carry ws x) := List.foldl_append

/-- A write may as well have come after those it overtakes, if that makes no difference
to what they leave. -/
theorem carry_overtake {ws ws' : List (Write α)} {w : Write α} {x : Option α}
    (h : carry ws (w.apply x) = w.apply (carry ws x)) :
    carry (ws ++ ws') (w.apply x) = carry (ws ++ w :: ws') x := by
  rw [carry_append, carry_append, carry_cons, h]

/-- Without a delete on its way the key is at the primary if it is at the buddy. -/
theorem carry_ne_none {ws : List (Write α)} (h : ∀ w ∈ ws, w ≠ .delete) {x : Option α}
    (hx : x ≠ none) : carry ws x ≠ none := by
  induction ws generalizing x with
  | nil => exact hx
  | cons w ws ih =>
      exact ih (fun w' hw' => h w' (by simp [hw'])) (Write.apply_ne_none (h w (by simp)) hx)

/-- What holds of the values that writes bring holds of the value they lead to. -/
theorem carry_induction {P : α → Prop} {ws : List (Write α)} {x : Option α}
    (hx : ∀ a, x = some a → P a) (hws : ∀ w ∈ ws, ∀ a, w.value = some a → P a) :
    ∀ a, carry ws x = some a → P a := by
  induction ws generalizing x with
  | nil => exact hx
  | cons w ws ih =>
      refine ih ?_ fun w' hw' => hws w' (by simp [hw'])
      intro a ha
      rcases Write.apply_eq_some ha with hold | hnew
      · exact hx a hold
      · exact hws w (by simp) a hnew

/-- What becomes of the writes on their way to a replica, and of the replica, if they keep
their order. -/
inductive Lag : List (Write α) → Option α → List (Write α) → Option α → Prop
  | stay (q : List (Write α)) (b : Option α) : Lag q b q b
  | send (q : List (Write α)) (b : Option α) (w : Write α) : Lag q b (q ++ [w]) b
  | arrive (q : List (Write α)) (b : Option α) (w : Write α) : Lag (w :: q) b q (w.apply b)

/-- All that a replica is still to go through has been `Held`. -/
def Trail (Held : Option α → Prop) (q : List (Write α)) (b : Option α) : Prop :=
  ∀ n, Held (carry (q.take n) b)

namespace Trail

variable {Held Held' : Option α → Prop} {q q' : List (Write α)} {b b' : Option α}

theorem mono (h : Trail Held q b) (himp : ∀ x, Held x → Held' x) : Trail Held' q b :=
  fun n => himp _ (h n)

theorem replica (h : Trail Held q b) : Held b := h 0

/-- What is sent is held where it is sent from. -/
theorem step (h : Trail Held q b) (hlag : Lag q b q' b') (hnow : Held (carry q' b')) :
    Trail Held q' b' := by
  intro n
  cases hlag with
  | stay => exact h n
  | send w =>
      by_cases hn : n ≤ q.length
      · rw [List.take_append_of_le_length hn]
        exact h n
      · rw [List.take_of_length_le (by simp; omega)]
        exact hnow
  | arrive w => exact h (n + 1)

end Trail

/-- If a key is absent and no delete is on its way, it has been absent all along. -/
theorem trail_of_none {Held : Option α → Prop} {q : List (Write α)} {b : Option α}
    (hdelete : ∀ w ∈ q, w ≠ .delete) (h : carry q b = none) (hnone : Held none) :
    Trail Held q b := by
  intro n
  have htake : carry (q.take n) b = none := by
    by_contra hsome
    have hrest : ∀ w ∈ q.drop n, w ≠ .delete := fun w hw => hdelete w (List.mem_of_mem_drop hw)
    refine carry_ne_none hrest hsome ?_
    rw [← carry_append, List.take_append_drop, h]
  rw [htake]
  exact hnone

end Replica
