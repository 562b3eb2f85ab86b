/-
Records that are read from objects.

An object tells a record (`Describes`) if no field comes twice, every member with the key of a field
tells the value of that field, and a field without member may be missing and is blank.  Nothing is
said about the order of the members or about members with other names.  The main statement is
`tells_record`: such an object is read as that record, provided the schema is lawful.  The schemas
of this library are (`lawful_level` and its like).
-/
import LuaConfig.Proofs.Json.Read
import LuaConfig.Proofs.Record.Field

namespace LuaConfig.Json

/-! ### Schemas -/

section Schema

variable {ρ : Type} {schema : Schema ρ}

/-- The fields of a schema make up the record. -/
def Schema.Lawful (schema : Schema ρ) : Prop :=
  Field.Complete (schema.fields.map Prod.fst)

/-- Of two fields of a lawful schema, one does not disturb the other. -/
theorem Schema.Lawful.apart_of_ne (h : schema.Lawful) {p q : Field ρ × Presence}
    (hp : p ∈ schema.fields) (hq : q ∈ schema.fields) (hne : p ≠ q) : p.1.Apart q.1 := by
  have hpairs : schema.fields.Pairwise fun p q => p.1.Apart q.1 :=
    List.pairwise_map.mp (Field.Complete.apart h)
  have : Std.Symm fun p q : Field ρ × Presence => p.1.Apart q.1 := ⟨fun _ _ => Field.Apart.symm⟩
  exact hpairs.forall hp hq hne

theorem Schema.Lawful.nodup_keys (h : schema.Lawful) :
    (schema.fields.map fun p => p.1.key).Nodup :=
  List.map_map ▸ Field.Complete.nodup_keys h

theorem Schema.Lawful.eq_of_key (h : schema.Lawful) {p q : Field ρ × Presence}
    (hp : p ∈ schema.fields) (hq : q ∈ schema.fields) (hkey : p.1.key = q.1.key) : p = q :=
  by_contra fun hne => (h.apart_of_ne hp hq hne).1 hkey

theorem Schema.Lawful.find_key (h : schema.Lawful) {p : Field ρ × Presence}
    (hp : p ∈ schema.fields) : schema.fields.find? (·.1.key == p.1.key) = some p := by
  cases hfind : schema.fields.find? (·.1.key == p.1.key) with
  | none => exact absurd (List.find?_eq_none.mp hfind p hp) (by simp)
  | some q =>
    have hkey : q.1.key = p.1.key := by simpa using List.find?_some hfind
    exact congrArg some (h.eq_of_key (List.mem_of_find?_eq_some hfind) hp hkey)

theorem find_key_eq_none {name : String} (h : ∀ p ∈ schema.fields, p.1.key ≠ name) :
    schema.fields.find? (·.1.key == name) = none :=
  List.find?_eq_none.mpr fun p hp => by simpa using h p hp

end Schema

/-! ### Objects -/

section Record

variable {ρ : Type} {codec : (kind : Kind) → Codec kind.Value} {schema : Schema ρ}

/-- The members of an object that tells a record, where `told` says which documents tell the values
of a kind. -/
structure Describes (schema : Schema ρ) (told : (kind : Kind) → Json → kind.Value → Prop)
    (members : List (String × Json)) (record : ρ) : Prop where
  once : ∀ p ∈ schema.fields, (members.map Prod.fst).count p.1.key ≤ 1
  value : ∀ p ∈ schema.fields, ∀ d, (p.1.key, d) ∈ members → told p.1.kind d (p.1.get record)
  absent : ∀ p ∈ schema.fields, p.1.key ∉ members.map Prod.fst →
    p.2 ≠ .required ∧ p.1.get record = p.1.get schema.blank

/-- A record under way has the values of the record in the fields that have been read. -/
def Reaches (schema : Schema ρ) (record : ρ) (state : Partial ρ) : Prop :=
  ∀ p ∈ schema.fields, p.1.get state.1 =
    if p.1.key ∈ state.2 then p.1.get record else p.1.get schema.blank

theorem reaches_blank (schema : Schema ρ) (record : ρ) : Reaches schema record (schema.blank, []) :=
  fun p _ => by simp

/-- Reading one more field. -/
theorem Reaches.set {record : ρ} {state : Partial ρ} (h : Reaches schema record state)
    (hlaw : schema.Lawful) {p : Field ρ × Presence} (hp : p ∈ schema.fields) :
    Reaches schema record (p.1.set (p.1.get record) state.1, p.1.key :: state.2) := by
  intro q hq
  by_cases hkey : p.1.key = q.1.key
  · obtain rfl := hlaw.eq_of_key hp hq hkey
    simp [p.1.get_set]
  · have hapart := hlaw.apart_of_ne hp hq fun heq => hkey (by rw [heq])
    have hmem : q.1.key ∈ p.1.key :: state.2 ↔ q.1.key ∈ state.2 := by simp [Ne.symm hkey]
    simp only [hapart.2.1, h q hq, hmem]

theorem length_le_members (layout : Layout) (first : Bool) (depth : Nat)
    (members : List (String × Json)) :
    members.length ≤ (layout.members first depth members).length := by
  induction members generalizing first with
  | nil => simp
  | cons member members ih =>
    have := ih false
    simp only [Layout.members, List.length_append, List.length_cons]
    omega

/-- The members that are left of an object that tells a record, after the fields `seen`. -/
structure Pending (schema : Schema ρ) (told : (kind : Kind) → Json → kind.Value → Prop)
    (record : ρ) (members : List (String × Json)) (seen : List String) : Prop where
  once : ∀ p ∈ schema.fields, (members.map Prod.fst).count p.1.key ≤ 1
  value : ∀ p ∈ schema.fields, ∀ d, (p.1.key, d) ∈ members → told p.1.kind d (p.1.get record)
  fresh : ∀ p ∈ schema.fields, p.1.key ∈ seen → p.1.key ∉ members.map Prod.fst

variable {told : (kind : Kind) → Json → kind.Value → Prop} {record : ρ}

theorem Describes.pending {members : List (String × Json)}
    (h : Describes schema told members record) : Pending schema told record members [] :=
  ⟨h.once, h.value, fun _ _ hmem => absurd hmem List.not_mem_nil⟩

theorem Pending.tail {member : String × Json} {members : List (String × Json)} {seen : List String}
    (h : Pending schema told record (member :: members) seen) :
    Pending schema told record members seen where
  once p hp := (List.count_le_count_cons ..).trans (h.once p hp)
  value p hp d hd := h.value p hp d (List.mem_cons_of_mem _ hd)
  fresh p hp hseen hmem := h.fresh p hp hseen (List.mem_cons_of_mem _ hmem)

theorem Pending.tail_seen {name : String} {d : Json} {members : List (String × Json)}
    {seen : List String} (h : Pending schema told record ((name, d) :: members) seen) :
    Pending schema told record members (name :: seen) where
  once := h.tail.once
  value := h.tail.value
  fresh p hp hseen hmem := by
    rcases List.mem_cons.mp hseen with hname | hseen
    · have honce := h.once p hp
      rw [List.map_cons, ← hname, List.count_cons_self] at honce
      have := List.count_pos_iff.mpr hmem
      omega
    · exact h.tail.fresh p hp hseen hmem

section Members

variable (layout : Layout) {blanks : List Char} (hblank : Blank blanks) (rest : List Char)
  (depth : Nat) (room fuel : Nat) (first : Bool) (state : Partial ρ)

include hblank

/-- A member with another name is passed over. -/
theorem readMembers_unknown {name : String} (hname : ∀ p ∈ schema.fields, p.1.key ≠ name)
    (value : Json) (members : List (String × Json)) :
    readMembers codec schema room (fuel + 1) first state
        (layout.members first depth ((name, value) :: members) ++ (blanks ++ '\x7d' :: rest)) =
      readMembers codec schema room fuel false state
        (layout.members false depth members ++ (blanks ++ '\x7d' :: rest)) := by
  have hskip := skip_text layout depth value layout.blank_space
    (stops_members layout depth members hblank rest)
  rw [members_cons, readMembers, nextMember_member first (layout.blank_gap depth)]
  simp only [readString_quoted, ok_bind, find_key_eq_none hname, readColon_cons, hskip]

/-- A member with the key of a field is read into that field. -/
theorem readMembers_known (hlaw : schema.Lawful) {p : Field ρ × Presence} (hp : p ∈ schema.fields)
    (hseen : p.1.key ∉ state.2) {value : Json} {v : p.1.kind.Value}
    (hread : Tells ((codec p.1.kind).read room) value v) (members : List (String × Json)) :
    readMembers codec schema room (fuel + 1) first state
        (layout.members first depth ((p.1.key, value) :: members) ++ (blanks ++ '\x7d' :: rest)) =
      readMembers codec schema room fuel false (p.1.set v state.1, p.1.key :: state.2)
        (layout.members false depth members ++ (blanks ++ '\x7d' :: rest)) := by
  have hvalue := hread layout depth layout.blank_space
    (stops_members layout depth members hblank rest)
  rw [members_cons, readMembers, nextMember_member first (layout.blank_gap depth)]
  simp [readString_quoted, ok_bind, hlaw.find_key hp, readColon_cons, hseen, readField, hvalue]

end Members

/-- The members of an object are read one after the other, each into its field. -/
theorem readMembers_members (hlaw : schema.Lawful) {room : Nat}
    (hread : ∀ p ∈ schema.fields, ∀ d v, told p.1.kind d v → Tells ((codec p.1.kind).read room) d v)
    (layout : Layout) {blanks : List Char} (hblank : Blank blanks) (rest : List Char) (depth : Nat)
    (members : List (String × Json)) (first : Bool) (fuel : Nat) (hfuel : members.length < fuel)
    (state : Partial ρ) (hstate : Reaches schema record state)
    (hpending : Pending schema told record members state.2) :
    ∃ final : Partial ρ,
      readMembers codec schema room fuel first state
          (layout.members first depth members ++ (blanks ++ '\x7d' :: rest)) = .ok (final, rest) ∧
        Reaches schema record final ∧ ∀ p ∈ schema.fields,
          p.1.key ∈ final.2 ↔ p.1.key ∈ state.2 ∨ p.1.key ∈ members.map Prod.fst := by
  -- the induction is over the members that are left, for every record read so far
  induction members generalizing first fuel state with
  | nil =>
    obtain ⟨fuel, rfl⟩ := Nat.exists_eq_succ_of_ne_zero (Nat.ne_of_gt hfuel)
    refine ⟨state, ?_, hstate, by simp⟩
    rw [Layout.members, List.nil_append, readMembers, nextMember_end first hblank]
  | cons member members ih =>
    obtain ⟨name, value⟩ := member
    obtain ⟨fuel, rfl⟩ := Nat.exists_eq_succ_of_ne_zero (Nat.ne_of_gt (Nat.zero_lt_of_lt hfuel))
    replace hfuel := Nat.lt_of_succ_lt_succ hfuel
    by_cases hname : ∃ p ∈ schema.fields, p.1.key = name
    · obtain ⟨p, hp, rfl⟩ := hname
      have hseen : p.1.key ∉ state.2 := fun h => hpending.fresh p hp h (by simp)
      have htold := hread p hp value _ (hpending.value p hp value List.mem_cons_self)
      obtain ⟨final, hfinal, hreach, hkeys⟩ := ih false fuel hfuel
        (p.1.set (p.1.get record) state.1, p.1.key :: state.2) (hstate.set hlaw hp)
        hpending.tail_seen
      refine ⟨final, ?_, hreach, fun q hq => ?_⟩
      · rw [readMembers_known layout hblank rest depth room fuel first state hlaw hp hseen htold]
        exact hfinal
      · rw [hkeys q hq]
        simp only [List.mem_cons, List.map_cons]
        tauto
    · simp only [not_exists, not_and] at hname
      obtain ⟨final, hfinal, hreach, hkeys⟩ := ih false fuel hfuel state hstate hpending.tail
      refine ⟨final, ?_, hreach, fun q hq => ?_⟩
      · rw [readMembers_unknown layout hblank rest depth room fuel first state hname]
        exact hfinal
      · rw [hkeys q hq, List.map_cons, List.mem_cons, or_iff_right (hname q hq)]

/-- An object tells the record that its members describe. -/
theorem tells_record (hlaw : schema.Lawful) {room : Nat}
    (hread : ∀ p ∈ schema.fields, ∀ d v, told p.1.kind d v → Tells ((codec p.1.kind).read room) d v)
    {members : List (String × Json)} (h : Describes schema told members record) :
    Tells ((Codec.record codec schema).read (room + 1)) (.object members) record := by
  intro layout depth blanks rest hblank hrest
  have hlength := length_le_members layout true (depth + 1) members
  obtain ⟨final, hfinal, hreach, hkeys⟩ := readMembers_members hlaw hread layout
    (layout.blank_closing members.isEmpty depth) rest (depth + 1) members true
    ((layout.members true (depth + 1) members ++
      (layout.closing members.isEmpty depth ++ '\x7d' :: rest)).length + 1)
    (by simp only [List.length_append]; omega) _ (reaches_blank schema record) h.pending
  have hrecord : final.1 = record := by
    refine Field.Complete.ext hlaw (List.forall_mem_map.mpr fun p hp => ?_)
    rw [hreach p hp]
    split
    · rfl
    · next hmissing =>
      have habsent : p.1.key ∉ members.map Prod.fst := fun hmem =>
        hmissing ((hkeys p hp).mpr (.inr hmem))
      exact (h.absent p hp habsent).2.symm
  rw [Layout.text, List.cons_append]
  simp only [Codec.record, skipBlank_append_cons hblank (show ¬ isBlank '\x7b' by decide), enter]
  rw [List.append_assoc, List.append_assoc, List.singleton_append, readObject, hfinal, ok_bind]
  dsimp only
  rw [if_neg, hrecord]
  -- no field is missing that is required
  rw [Bool.not_eq_true, List.any_eq_false]
  rintro ⟨field, presence⟩ hp hmissing
  simp only [Bool.and_eq_true, beq_iff_eq, Bool.not_eq_true', List.contains_eq_mem,
    decide_eq_false_iff_not] at hmissing
  have habsent : field.key ∉ members.map Prod.fst := fun hmem =>
    hmissing.2 ((hkeys _ hp).mpr (.inr hmem))
  exact (h.absent _ hp habsent).1 hmissing.1

end Record

/-! ### The schemas of this library -/

theorem lawful_of_complete {ρ : Type} (blank : ρ) {fields : List (Field ρ)}
    (h : Field.Complete fields) (presence : Field ρ → Presence) :
    Schema.Lawful ⟨blank, fields.map fun field => (field, presence field)⟩ := by
  simpa [Schema.Lawful, Function.comp_def] using h

theorem lawful_override : overrideSchema.Lawful :=
  lawful_of_complete _ Override.complete_fields _

theorem lawful_item : itemSchema.Lawful :=
  lawful_of_complete _ OptionItem.complete_fields _

theorem lawful_option : optionSchema.Lawful :=
  lawful_of_complete _ ModOption.complete_fields _

theorem lawful_modInfo : modInfoSchema.Lawful :=
  lawful_of_complete _ ModInfo.complete_fields _

theorem lawful_level : levelSchema.Lawful :=
  lawful_of_complete _ Level.complete_fields _

end LuaConfig.Json
