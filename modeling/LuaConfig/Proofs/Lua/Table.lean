/-
Tables as lists of entries.

The entries of a table have distinct keys, and `places` finds them (`Coherent`).  To set the value
of a key is then to replace its entry, or to add one behind the others (`upsert`), and the value of
a key is that of its entry.  Of several values that are set for one key the last one stays, in the
place of the first (`find_upsertAll`).  A walk goes through all entries, each of them once, in
whatever order it does (`walked_perm`).
-/
import LuaConfig.Lua.Table
import LuaConfig.Proofs.Lua.Value

namespace LuaConfig.Lua

/-! ### Lists with keys -/

section Keys

variable {α β κ : Type} [DecidableEq κ] (key : α → κ)

/-- Replaces the element of the same key, or else adds one behind the others. -/
def upsert (x : α) : List α → List α
  | [] => [x]
  | y :: ys => if key y = key x then x :: ys else y :: upsert x ys

/-- Does so for one element after the other. -/
def upsertAll (xs ys : List α) : List α := xs.foldl (fun ys x => upsert key x ys) ys

theorem upsertAll_nil (ys : List α) : upsertAll key [] ys = ys := rfl

theorem upsertAll_cons (x : α) (xs ys : List α) :
    upsertAll key (x :: xs) ys = upsertAll key xs (upsert key x ys) := rfl

variable {key}

theorem upsert_of_not_mem {x : α} {ys : List α} (h : key x ∉ ys.map key) :
    upsert key x ys = ys ++ [x] := by
  induction ys with
  | nil => rfl
  | cons y ys ih =>
    rw [List.map_cons, List.mem_cons, not_or] at h
    rw [upsert, if_neg (Ne.symm h.1), ih h.2]
    rfl

theorem upsert_eq_set {x y : α} {ys : List α} {i : Nat} (hnodup : (ys.map key).Nodup)
    (hy : ys[i]? = some y) (hkey : key y = key x) : upsert key x ys = ys.set i x := by
  induction ys generalizing i with
  | nil => simp at hy
  | cons z zs ih =>
    rw [List.map_cons, List.nodup_cons] at hnodup
    rw [upsert]
    cases i with
    | zero =>
      obtain rfl : z = y := by simpa using hy
      rw [if_pos hkey]
      rfl
    | succ i =>
      rw [List.getElem?_cons_succ] at hy
      rw [if_neg, ih hnodup.2 hy, List.set_cons_succ]
      intro hz
      rw [hz, ← hkey] at hnodup
      exact hnodup.1 (List.mem_map_of_mem (List.mem_of_getElem? hy))

theorem find_of_mem {y : α} {ys : List α} (hnodup : (ys.map key).Nodup) (hy : y ∈ ys) :
    ys.find? (key · = key y) = some y := by
  induction ys with
  | nil => cases hy
  | cons z zs ih =>
    rw [List.map_cons, List.nodup_cons] at hnodup
    rcases List.mem_cons.mp hy with rfl | hy
    · rw [List.find?_cons_of_pos (by simp)]
    · rw [List.find?_cons_of_neg, ih hnodup.2 hy]
      intro hz
      rw [of_decide_eq_true hz] at hnodup
      exact hnodup.1 (List.mem_map_of_mem hy)

/-- What is found under a key does not depend on the order, if keys are distinct. -/
theorem find_perm {ys ys' : List α} (h : ys.Perm ys') (hnodup : (ys'.map key).Nodup) (k : κ) :
    ys.find? (key · = k) = ys'.find? (key · = k) := by
  cases hfind : ys'.find? (key · = k) with
  | none =>
    rw [List.find?_eq_none] at hfind ⊢
    exact fun y hy => hfind y (h.mem_iff.mp hy)
  | some y =>
    have hy := List.find?_some hfind
    obtain rfl : key y = k := of_decide_eq_true hy
    exact find_of_mem ((h.map key).nodup_iff.mpr hnodup)
      (h.mem_iff.mpr (List.mem_of_find?_eq_some hfind))

theorem find_reverse {ys : List α} (hnodup : (ys.map key).Nodup) (k : κ) :
    ys.reverse.find? (key · = k) = ys.find? (key · = k) :=
  find_perm (List.reverse_perm ys) hnodup k

theorem map_key_upsert (x : α) (ys : List α) :
    (upsert key x ys).map key =
      if key x ∈ ys.map key then ys.map key else ys.map key ++ [key x] := by
  induction ys with
  | nil => rfl
  | cons y ys ih =>
    rw [upsert]
    by_cases hy : key y = key x
    · rw [if_pos hy, List.map_cons, List.map_cons, hy, if_pos List.mem_cons_self]
    · rw [if_neg hy, List.map_cons, ih, List.map_cons]
      by_cases hx : key x ∈ ys.map key
      · rw [if_pos hx, if_pos (List.mem_cons_of_mem _ hx)]
      · have hx' : key x ∉ key y :: ys.map key := by
          rw [List.mem_cons, not_or]
          exact ⟨Ne.symm hy, hx⟩
        rw [if_neg hx, if_neg hx', List.cons_append]

theorem nodup_upsert (x : α) {ys : List α} (h : (ys.map key).Nodup) :
    ((upsert key x ys).map key).Nodup := by
  rw [map_key_upsert]
  split
  · exact h
  · next hx => exact List.concat_eq_append ▸ h.concat hx

theorem nodup_upsertAll (xs : List α) {ys : List α} (h : (ys.map key).Nodup) :
    ((upsertAll key xs ys).map key).Nodup := by
  induction xs generalizing ys with
  | nil => exact h
  | cons x xs ih => exact ih (nodup_upsert x h)

theorem find_upsert (x : α) (ys : List α) (k : κ) :
    (upsert key x ys).find? (key · = k) =
      if key x = k then some x else ys.find? (key · = k) := by
  induction ys with
  | nil => by_cases hx : key x = k <;> simp [upsert, hx]
  | cons y ys ih =>
    rw [upsert]
    by_cases hy : key y = key x
    · by_cases hx : key x = k <;> simp [hy, hx]
    · rw [if_neg hy, List.find?_cons, ih, List.find?_cons]
      by_cases hk : key y = k
      · have hx : key x ≠ k := fun hx => hy (hk.trans hx.symm)
        simp [hk, hx]
      · simp [hk]

/-- The last element of a key stays. -/
theorem find_upsertAll (xs ys : List α) (k : κ) :
    (upsertAll key xs ys).find? (key · = k) =
      (xs.reverse.find? (key · = k)).or (ys.find? (key · = k)) := by
  induction xs generalizing ys with
  | nil => rfl
  | cons x xs ih =>
    rw [upsertAll_cons, ih, find_upsert, List.reverse_cons, List.find?_append, Option.or_assoc]
    congr 1
    by_cases hx : key x = k <;> simp [hx]

theorem upsertAll_of_nodup {xs ys : List α} (h : ((ys ++ xs).map key).Nodup) :
    upsertAll key xs ys = ys ++ xs := by
  induction xs generalizing ys with
  | nil => rw [List.append_nil, upsertAll_nil]
  | cons x xs ih =>
    have hx : key x ∉ ys.map key := by
      rw [List.map_append, List.map_cons, List.nodup_append] at h
      intro hmem
      exact h.2.2 _ hmem _ List.mem_cons_self rfl
    rw [List.append_cons] at h
    rw [upsertAll_cons, upsert_of_not_mem hx, ih h, ← List.append_cons]

/-- Elements of distinct keys are kept as they are. -/
theorem upsertAll_nil_of_nodup {xs : List α} (h : (xs.map key).Nodup) : upsertAll key xs [] = xs :=
  (upsertAll_of_nodup (by rwa [List.nil_append])).trans xs.nil_append

variable {κ' : Type} [DecidableEq κ'] {key' : β → κ'}

theorem map_upsert {f : α → β} (hf : ∀ a b, key' (f a) = key' (f b) ↔ key a = key b) (x : α)
    (ys : List α) : (upsert key x ys).map f = upsert key' (f x) (ys.map f) := by
  induction ys with
  | nil => rfl
  | cons y ys ih =>
    rw [upsert, List.map_cons, upsert]
    simp only [hf]
    split
    · rfl
    · rw [List.map_cons, ih]

theorem map_upsertAll {f : α → β} (hf : ∀ a b, key' (f a) = key' (f b) ↔ key a = key b)
    (xs ys : List α) :
    (upsertAll key xs ys).map f = upsertAll key' (xs.map f) (ys.map f) := by
  induction xs generalizing ys with
  | nil => rfl
  | cons x xs ih => rw [upsertAll_cons, ih, map_upsert hf, List.map_cons, upsertAll_cons]

theorem mem_upsert {x y : α} {ys : List α} (h : y ∈ upsert key x ys) : y = x ∨ y ∈ ys := by
  induction ys with
  | nil => exact Or.inl (List.mem_singleton.mp h)
  | cons z zs ih =>
    rw [upsert] at h
    split at h
    · rcases List.mem_cons.mp h with h | h
      · exact Or.inl h
      · exact Or.inr (List.mem_cons_of_mem _ h)
    · rcases List.mem_cons.mp h with rfl | h
      · exact Or.inr List.mem_cons_self
      · exact (ih h).imp_right (List.mem_cons_of_mem _)

theorem mem_upsertAll {y : α} {xs ys : List α} (h : y ∈ upsertAll key xs ys) :
    y ∈ xs ∨ y ∈ ys := by
  induction xs generalizing ys with
  | nil => exact Or.inr h
  | cons x xs ih =>
    rcases ih h with h | h
    · exact Or.inl (List.mem_cons_of_mem _ h)
    · rcases mem_upsert h with rfl | h
      · exact Or.inl List.mem_cons_self
      · exact Or.inr h

end Keys

/-! ### Entries -/

namespace Table

/-- The keys of the entries are distinct, and `places` says where they are. -/
def Coherent (t : Table) : Prop :=
  ∀ (key : Value) (i : Nat), t.places[key]? = some i ↔
    (t.entries.toList[i]?).map Prod.fst = some key

theorem coherent_empty (walk : Walk) : Coherent { walk := walk } := by
  intro key i
  have hnone : (∅ : Std.TreeMap Value Nat Value.order)[key]? = none := Std.TreeMap.getElem?_emptyc
  rw [hnone]
  simp

namespace Coherent

variable {t : Table}

theorem nodup (h : t.Coherent) : (t.entries.toList.map Prod.fst).Nodup := by
  rw [List.nodup_iff_getElem?_ne_getElem?]
  intro i j hij hj heq
  obtain ⟨key, hkey⟩ : ∃ key, (t.entries.toList[j]?).map Prod.fst = some key := by
    rw [List.length_map] at hj
    exact ⟨_, by rw [List.getElem?_eq_getElem hj, Option.map_some]⟩
  rw [List.getElem?_map, List.getElem?_map, hkey] at heq
  have hi := (h key i).mpr heq
  rw [(h key j).mpr hkey, Option.some_inj] at hi
  exact hij.ne' hi

/-- The entry of a key that has a place. -/
theorem entry_of_place (h : t.Coherent) {key : Value} {i : Nat} (hi : t.places[key]? = some i) :
    ∃ v, t.entries.toList[i]? = some (key, v) := by
  obtain ⟨⟨k, v⟩, he, rfl⟩ := Option.map_eq_some_iff.mp ((h key i).mp hi)
  exact ⟨v, he⟩

theorem not_mem_of_none (h : t.Coherent) {key : Value} (hnone : t.places[key]? = none) :
    key ∉ t.entries.toList.map Prod.fst := by
  intro hmem
  obtain ⟨i, hi⟩ := List.getElem?_of_mem hmem
  rw [List.getElem?_map, ← h key i, hnone] at hi
  cases hi

/-- The value of a key is that of its entry. -/
theorem getEntry_eq (h : t.Coherent) (key : Value) :
    t.getEntry key = ((t.entries.toList.find? (Prod.fst · = key)).map Prod.snd).getD .nil := by
  rw [getEntry]
  cases hplace : t.places[key]? with
  | some i =>
    obtain ⟨v, he⟩ := h.entry_of_place hplace
    have hfind := find_of_mem h.nodup (List.mem_of_getElem? he)
    rw [Array.getElem?_toList] at he
    rw [hfind]
    simp only [he]
    rfl
  | none =>
    have hfind : t.entries.toList.find? (Prod.fst · = key) = none := by
      rw [List.find?_eq_none]
      intro e he heq
      exact h.not_mem_of_none hplace
        (of_decide_eq_true heq ▸ List.mem_map_of_mem he)
    rw [hfind]
    rfl

/-- Nil, too, is set as an entry, if the key has one. -/
theorem setEntry_eq (h : t.Coherent) (key : Value) {value : Value}
    (hvalue : value = .nil → t.places[key]? ≠ none) :
    (t.setEntry key value).entries.toList = upsert Prod.fst (key, value) t.entries.toList := by
  rw [Table.setEntry]
  cases hplace : t.places[key]? with
  | some i =>
    obtain ⟨v, he⟩ := h.entry_of_place hplace
    rw [upsert_eq_set (x := (key, value)) h.nodup he rfl]
    exact Array.toList_setIfInBounds
  | none =>
    rw [upsert_of_not_mem (h.not_mem_of_none hplace)]
    simp only [if_neg fun hnil => hvalue hnil hplace]
    exact Array.toList_push

theorem setEntry (h : t.Coherent) (key value : Value) : (t.setEntry key value).Coherent := by
  rw [Table.setEntry]
  -- a key that has a place keeps it; a new one is put behind all others
  cases hplace : t.places[key]? with
  | some i =>
    intro key' j
    obtain ⟨v, he⟩ := h.entry_of_place hplace
    dsimp only
    rw [h key' j, Array.toList_setIfInBounds, List.getElem?_set]
    split
    · next hij =>
      subst hij
      obtain ⟨hi, -⟩ := List.getElem?_eq_some_iff.mp he
      rw [if_pos hi, he]
      rfl
    · rfl
  | none =>
    dsimp only
    split
    · exact h
    · intro key' j
      have hnew := h.not_mem_of_none hplace
      rw [Std.TreeMap.getElem?_insert, Array.toList_push, ← Array.length_toList]
      by_cases hkey : key = key'
      · -- the new key stands behind all others, and only there
        subst hkey
        rw [if_pos Std.ReflCmp.compare_self, Option.some_inj]
        constructor
        · rintro rfl
          rw [List.getElem?_concat_length]
          rfl
        · intro he
          rcases Nat.lt_trichotomy j t.entries.toList.length with hj | hj | hj
          · rw [List.getElem?_append_left hj, ← List.getElem?_map] at he
            exact absurd (List.mem_of_getElem? he) hnew
          · exact hj.symm
          · rw [List.getElem?_eq_none (by simp; omega)] at he
            cases he
      · rw [if_neg (fun heq => hkey (Std.LawfulEqCmp.eq_of_compare heq)), h key' j]
        rcases Nat.lt_trichotomy j t.entries.toList.length with hj | hj | hj
        · rw [List.getElem?_append_left hj]
        · rw [hj, List.getElem?_concat_length, List.getElem?_eq_none le_rfl]
          simpa using hkey
        · rw [List.getElem?_eq_none hj.le, List.getElem?_eq_none (by simp; omega)]

/-- To set the value of a key changes no other. -/
theorem getEntry_setEntry (h : t.Coherent) (key value key' : Value) :
    (t.setEntry key value).getEntry key' = if key = key' then value else t.getEntry key' := by
  by_cases hkept : value = .nil → t.places[key]? ≠ none
  · rw [(h.setEntry key value).getEntry_eq, h.setEntry_eq key hkept, find_upsert, h.getEntry_eq]
    by_cases hkey : key = key'
    · rw [if_pos hkey, if_pos hkey]
      rfl
    · rw [if_neg hkey, if_neg hkey]
  · -- a key without an entry gets none
    obtain ⟨rfl, hplace⟩ : value = .nil ∧ t.places[key]? = none := by
      simpa only [Classical.not_imp, not_not] using hkept
    have hsame : t.setEntry key .nil = t := by
      rw [Table.setEntry, hplace]
      rfl
    rw [hsame]
    split
    · next hkey =>
      rw [← hkey, getEntry, hplace]
    · rfl

/-! Positions stand apart from the entries, so that every way to set a value comes to entries that
are set. -/

theorem gather (h : t.Coherent) (fuel : Nat) : (t.gather fuel).Coherent := by
  induction fuel generalizing t with
  | zero => exact h
  | succ fuel ih =>
    unfold Table.gather
    dsimp only
    split
    · exact h
    · exact ih (h.setEntry _ .nil)

theorem push (h : t.Coherent) (value : Value) : (t.push value).Coherent := by
  unfold Table.push
  dsimp only
  have hpushed : Coherent { t with positions := t.positions.push value } := h
  split
  · exact hpushed
  · exact hpushed.gather _

theorem setInt (h : t.Coherent) (n : Int64) (value : Value) : (t.setInt n value).Coherent := by
  unfold Table.setInt
  split
  · exact h
  · split
    · exact h.push value
    · exact h.setEntry _ value

theorem set (h : t.Coherent) (key value : Value) : (t.set key value).Coherent := by
  unfold Table.set
  split
  · exact h.setInt _ value
  · split
    · exact h.setInt _ value
    · exact h.setEntry _ value
  · exact h.setEntry _ value

theorem foldl {f : Table × Nat → Value → Table × Nat}
    (hf : ∀ p v, p.1.Coherent → (f p v).1.Coherent) (values : List Value) {p : Table × Nat}
    (h : p.1.Coherent) : (values.foldl f p).1.Coherent := by
  induction values generalizing p with
  | nil => exact h
  | cons v values ih => exact ih (hf p v h)

theorem setPositions (h : t.Coherent) (values : List Value) : (t.setPositions values).Coherent := by
  unfold Table.setPositions
  split
  · exact h
  · refine foldl (fun p v hp => ?_) values h
    dsimp only
    split
    · exact hp
    · exact hp.push v

end Coherent

/-! ### Walks -/

/-- The places that a walk comes to are all there are. -/
theorem places_perm (walk : Walk) (size : Nat) :
    ((List.range size).map (walk.place size)).Perm (List.range size) := by
  refine (List.perm_ext_iff_of_nodup ?_ List.nodup_range).mpr fun p => ?_
  · refine List.Nodup.map_on (fun r hr r' hr' heq => ?_) List.nodup_range
    rw [List.mem_range] at hr hr'
    rw [← walk.rank_place hr, heq, walk.rank_place hr']
  · simp only [List.mem_map, List.mem_range]
    constructor
    · rintro ⟨r, hr, rfl⟩
      exact walk.place_lt hr
    · intro hp
      exact ⟨walk.rank size p, walk.rank_lt hp, walk.place_rank hp⟩

theorem filterMap_range_getElem {α : Type} (xs : List α) :
    (List.range xs.length).filterMap (xs[·]?) = xs := by
  induction xs using List.reverseRecOn with
  | nil => rfl
  | append_singleton xs x ih =>
    have hbefore : (List.range xs.length).filterMap ((xs ++ [x])[·]?) = xs := by
      refine (List.filterMap_congr fun i hi => ?_).trans ih
      exact List.getElem?_append_left (List.mem_range.mp hi)
    rw [List.length_append, List.length_singleton, List.range_succ, List.filterMap_append, hbefore]
    simp

/-- A walk goes through all entries, each of them once. -/
theorem walked_perm (t : Table) : t.walked.Perm t.entries.toList := by
  have hwalked : t.walked = ((List.range t.entries.size).map
      (t.walk.place t.entries.size)).filterMap (t.entries.toList[·]?) := by
    rw [walked, List.filterMap_map]
    refine List.filterMap_congr fun r hr => ?_
    rw [entryAt?, if_pos (List.mem_range.mp hr), Function.comp, Array.getElem?_toList]
  have hall : (List.range t.entries.size).filterMap (t.entries.toList[·]?) = t.entries.toList :=
    filterMap_range_getElem t.entries.toList
  rw [hwalked]
  exact ((places_perm t.walk t.entries.size).filterMap _).trans (.of_eq hall)

theorem mem_walked {t : Table} {e : Value × Value} : e ∈ t.walked ↔ e ∈ t.entries.toList :=
  t.walked_perm.mem_iff

/-! ### Tables that are made of items -/

/-- Sets the values of keys, one after the other. -/
def setAll (entries : List (Value × Value)) (t : Table) : Table :=
  entries.foldl (fun t e => t.set e.1 e.2) t

/-- Fills the positions if there are values for them. -/
def fill (values : List Value) (t : Table) : Table :=
  if values.isEmpty then t else t.setPositions values

/-- What a constructor makes of an empty table with some walk: the entries are set, and then the
positions are filled. -/
def construct (walk : Walk) (entries : List (Value × Value)) (values : List Value) : Table :=
  fill values (setAll entries { walk := walk })

/-- An entry that has a string as its key, and a value. -/
def IsField (e : Value × Value) : Prop := (∃ s, e.1 = .str s) ∧ e.2 ≠ .nil

theorem set_of_isField (t : Table) {e : Value × Value} (he : IsField e) :
    t.set e.1 e.2 = t.setEntry e.1 e.2 := by
  obtain ⟨⟨s, hs⟩, -⟩ := he
  rw [hs]
  rfl

theorem positions_setEntry (t : Table) (key value : Value) :
    (t.setEntry key value).positions = t.positions := by
  unfold setEntry
  split
  · rfl
  · split <;> rfl

theorem setAll_spec {t : Table} (ht : t.Coherent) {entries : List (Value × Value)}
    (h : ∀ e ∈ entries, IsField e) :
    (t.setAll entries).Coherent ∧ (t.setAll entries).positions = t.positions ∧
      (t.setAll entries).entries.toList = upsertAll Prod.fst entries t.entries.toList := by
  induction entries generalizing t with
  | nil => exact ⟨ht, rfl, rfl⟩
  | cons e entries ih =>
    have he := h e List.mem_cons_self
    obtain ⟨hcoherent, hpositions, hentries⟩ :=
      ih (ht.setEntry e.1 e.2) fun e he => h e (List.mem_cons_of_mem _ he)
    have hstep : t.setAll (e :: entries) = (t.setEntry e.1 e.2).setAll entries := by
      rw [← set_of_isField t he]
      rfl
    rw [hstep]
    refine ⟨hcoherent, by rw [hpositions, positions_setEntry], ?_⟩
    rw [hentries, ht.setEntry_eq e.1 fun hnil => absurd hnil he.2]
    rfl

variable {entries : List (Value × Value)} (walk : Walk)

/-- The value of a key is the last one that was set. -/
theorem getEntry_construct (h : ∀ e ∈ entries, IsField e) (key : Value) :
    (construct walk entries []).getEntry key =
      ((entries.reverse.find? (Prod.fst · = key)).map Prod.snd).getD .nil := by
  obtain ⟨hcoherent, -, hentries⟩ := setAll_spec (coherent_empty walk) h
  show (setAll entries { walk := walk }).getEntry key = _
  rw [hcoherent.getEntry_eq, hentries, find_upsertAll]
  simp

/-- The pairs of a constructor's fields, in whatever order a walk goes through them. -/
theorem pairs_construct (h : ∀ e ∈ entries, IsField e) :
    (construct walk entries []).pairs.Perm (upsertAll Prod.fst entries []) := by
  obtain ⟨-, hpositions, hentries⟩ := setAll_spec (coherent_empty walk) h
  have hwalked : (setAll entries { walk := walk }).walked.Perm (upsertAll Prod.fst entries []) :=
    hentries ▸ walked_perm _
  show (setAll entries { walk := walk }).pairs.Perm _
  rw [pairs, hpositions]
  refine (List.Perm.of_eq (List.filter_eq_self.mpr fun e he => ?_)).trans hwalked
  rcases mem_upsertAll (hwalked.mem_iff.mp he) with he | he
  · simpa using (h e he).2
  · cases he

theorem pairs_construct_values {values : List Value} (h : ∀ v ∈ values, v ≠ .nil) :
    (construct walk [] values).pairs.map Prod.snd = values := by
  have hpairs : (construct walk [] values).pairs =
      values.zipIdx.map fun p => (Value.int (Int64.ofInt (p.2 + 1)), p.1) := by
    cases values with
    | nil => rfl
    | cons v values =>
      refine (List.filter_eq_self.mpr fun e he => ?_).trans (List.append_nil _)
      obtain ⟨⟨v', i⟩, hmem, rfl⟩ := List.mem_map.mp ((List.append_nil _).symm ▸ he)
      simpa using h v' (List.fst_mem_of_mem_zipIdx hmem)
  rw [hpairs, List.map_map]
  exact List.zipIdx_map_fst 0 values

end Table

end LuaConfig.Lua
