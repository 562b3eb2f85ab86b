/-
Numbers that no document holds.

A double that is no number, or infinite, is written as `null`, and where a number or a scalar must
stand `null` is refused.  So the document of a level in which there is such a double is refused
(`refuses_level`), and the document of any other level tells that level, if its numbers read back.
-/
import LuaConfig.Proofs.Json.Edit

namespace LuaConfig.Json

open Decimal

/-- The reader takes no value off the text of the document. -/
def Refuses {α : Type} (read : Read α) (d : Json) : Prop :=
  ∀ (layout : Layout) (depth : Nat) {blanks rest : List Char}, Blank blanks → Stops rest →
    ∃ fault, read (blanks ++ (layout.text depth d ++ rest)) = .error fault

/-! ### Simple values -/

theorem floatText_of_not_finite {x : Float} (h : ¬ (Binary64.ofFloat x).isFinite) :
    floatText x = "null" := by
  unfold floatText
  cases hx : Binary64.ofFloat x with
  | finite => exact absurd (by rw [hx]; rfl) h
  | nan => rfl
  | infinite => rfl

theorem refuses_number {x : Float} (h : ¬ (Binary64.ofFloat x).isFinite) :
    Refuses readFloat (.float x) := by
  intro layout depth blanks rest hblank _
  refine ⟨.mismatch, ?_⟩
  have htext : layout.text depth (.float x) = ['n', 'u', 'l', 'l'] := by
    rw [Layout.text_float, floatText_of_not_finite h]
    rfl
  rw [htext, List.cons_append, readFloat, readAnyNumber, skipBlank_append_cons hblank (by decide)]
  rfl

theorem refuses_scalar {x : Float} (h : ¬ (Binary64.ofFloat x).isFinite) (room : Nat) :
    Refuses (readScalar room) (.float x) := by
  intro layout depth blanks rest hblank _
  refine ⟨.mismatch, ?_⟩
  have htext : layout.text depth (.float x) = ['n', 'u', 'l', 'l'] := by
    rw [Layout.text_float, floatText_of_not_finite h]
    rfl
  rw [htext, List.cons_append, readScalar,
    readAny_leaf room hblank (by decide) (by decide) (by decide)]
  rfl

/-! ### Lists and records -/

/-- An array is refused at the first element that is. -/
theorem readElements_refused {α : Type} {element : Read α} (layout : Layout) {blanks : List Char}
    (hblank : Blank blanks) (rest : List Char) (depth : Nat) {items : List Json}
    (h : ∀ d ∈ items, (∃ a, Tells element d a) ∨ Refuses element d)
    (hrefused : ∃ d ∈ items, Refuses element d) (first : Bool) (done : List α) (fuel : Nat) :
    ∃ fault, readElements element fuel first done
      (layout.items first depth items ++ (blanks ++ ']' :: rest)) = .error fault := by
  induction items generalizing first done fuel with
  | nil => simp at hrefused
  | cons item items ih =>
    cases fuel with
    | zero => exact ⟨_, rfl⟩
    | succ fuel =>
      have hstops := stops_items layout depth items hblank rest
      rw [items_cons, readElements, nextElement_text]
      -- the first element is refused, or else the one that is refused comes later
      by_cases hitem : Refuses element item
      · obtain ⟨fault, hread⟩ := hitem layout depth blank_nil hstops
        rw [List.nil_append] at hread
        exact ⟨fault, by simp only [hread]⟩
      · obtain ⟨a, htells⟩ := (h item List.mem_cons_self).resolve_right hitem
        have hread := htells layout depth blank_nil hstops
        rw [List.nil_append] at hread
        have htail : ∃ d ∈ items, Refuses element d := by
          obtain ⟨d, hd, hrefuses⟩ := hrefused
          rcases List.mem_cons.mp hd with rfl | hd
          · exact absurd hrefuses hitem
          · exact ⟨d, hd, hrefuses⟩
        simp only [hread]
        exact ih (fun d hd => h d (List.mem_cons_of_mem _ hd)) htail false (a :: done) fuel

theorem refuses_list {α : Type} {element : Codec α} {room : Nat} {items : List Json}
    (h : ∀ d ∈ items, (∃ a, Tells (element.read room) d a) ∨ Refuses (element.read room) d)
    (hrefused : ∃ d ∈ items, Refuses (element.read room) d) :
    Refuses ((Codec.list element).read (room + 1)) (.array items) := by
  intro layout depth blanks rest hblank _
  obtain ⟨fault, hread⟩ := readElements_refused layout
    (layout.blank_closing items.isEmpty depth) rest (depth + 1) h hrefused true []
    ((layout.items true (depth + 1) items ++
      (layout.closing items.isEmpty depth ++ ']' :: rest)).length + 1)
  refine ⟨fault, ?_⟩
  rw [Layout.text, List.cons_append]
  simp only [Codec.list, skipBlank_append_cons hblank (show ¬ isBlank '[' by decide), enter]
  simpa using hread

section Record

variable {ρ : Type} {codec : (kind : Kind) → Codec kind.Value} {schema : Schema ρ}

/-- An object is refused at the first member whose value is; a name that comes twice is refused
too. -/
theorem readMembers_refused (hlaw : schema.Lawful) (layout : Layout) {blanks : List Char}
    (hblank : Blank blanks) (rest : List Char) (depth room : Nat) {members : List (String × Json)}
    (h : ∀ p ∈ schema.fields, ∀ d, (p.1.key, d) ∈ members →
      (∃ v, Tells ((codec p.1.kind).read room) d v) ∨ Refuses ((codec p.1.kind).read room) d)
    (hrefused : ∃ p ∈ schema.fields, ∃ d, (p.1.key, d) ∈ members ∧
      Refuses ((codec p.1.kind).read room) d)
    (first : Bool) (fuel : Nat) (state : Partial ρ) :
    ∃ fault, readMembers codec schema room fuel first state
      (layout.members first depth members ++ (blanks ++ '\x7d' :: rest)) = .error fault := by
  induction members generalizing first fuel state with
  | nil => simp at hrefused
  | cons member members ih =>
    obtain ⟨name, value⟩ := member
    cases fuel with
    | zero => exact ⟨_, rfl⟩
    | succ fuel =>
      have htail : ∀ p ∈ schema.fields, ∀ d, (p.1.key, d) ∈ members →
          (∃ v, Tells ((codec p.1.kind).read room) d v) ∨ Refuses ((codec p.1.kind).read room) d :=
        fun p hp d hd => h p hp d (List.mem_cons_of_mem _ hd)
      obtain ⟨q, hq, d, hd, hrefuses⟩ := hrefused
      by_cases hname : ∃ p ∈ schema.fields, p.1.key = name
      · -- a field of the record: it has come before, or it is refused, or it is read
        obtain ⟨p, hp, rfl⟩ := hname
        by_cases hseen : p.1.key ∈ state.2
        · refine ⟨.mismatch, ?_⟩
          rw [members_cons, readMembers, nextMember_member first (layout.blank_gap depth)]
          simp [readString_quoted, ok_bind, hlaw.find_key hp, hseen]
        by_cases hvalue : Refuses ((codec p.1.kind).read room) value
        · obtain ⟨fault, hread⟩ := hvalue layout depth layout.blank_space
            (stops_members layout depth members hblank rest)
          refine ⟨fault, ?_⟩
          rw [members_cons, readMembers, nextMember_member first (layout.blank_gap depth)]
          simp [readString_quoted, ok_bind, hlaw.find_key hp, readColon_cons, hseen, readField, hread]
          rfl
        · obtain ⟨v, htells⟩ := (h p hp value List.mem_cons_self).resolve_right hvalue
          rw [readMembers_known layout hblank rest depth room fuel first state hlaw hp hseen htells]
          refine ih htail ⟨q, hq, d, ?_, hrefuses⟩ false fuel _
          rcases List.mem_cons.mp hd with heq | hd
          · obtain rfl := hlaw.eq_of_key hq hp (congrArg Prod.fst heq)
            obtain rfl : d = value := congrArg Prod.snd heq
            exact absurd hrefuses hvalue
          · exact hd
      · -- a member that is no field is skipped
        simp only [not_exists, not_and] at hname
        rw [readMembers_unknown layout hblank rest depth room fuel first state hname]
        refine ih htail ⟨q, hq, d, ?_, hrefuses⟩ false fuel state
        rcases List.mem_cons.mp hd with heq | hd
        · exact absurd (congrArg Prod.fst heq) (hname q hq)
        · exact hd

theorem refuses_record (hlaw : schema.Lawful) {room : Nat} {members : List (String × Json)}
    (h : ∀ p ∈ schema.fields, ∀ d, (p.1.key, d) ∈ members →
      (∃ v, Tells ((codec p.1.kind).read room) d v) ∨ Refuses ((codec p.1.kind).read room) d)
    (hrefused : ∃ p ∈ schema.fields, ∃ d, (p.1.key, d) ∈ members ∧
      Refuses ((codec p.1.kind).read room) d) :
    Refuses ((Codec.record codec schema).read (room + 1)) (.object members) := by
  intro layout depth blanks rest hblank _
  obtain ⟨fault, hread⟩ := readMembers_refused hlaw layout
    (layout.blank_closing members.isEmpty depth) rest (depth + 1) room h hrefused true
    ((layout.members true (depth + 1) members ++
      (layout.closing members.isEmpty depth ++ '\x7d' :: rest)).length + 1) (schema.blank, [])
  refine ⟨fault, ?_⟩
  rw [Layout.text, List.cons_append]
  simp only [Codec.record, skipBlank_append_cons hblank (show ¬ isBlank '\x7b' by decide), enter]
  rw [List.append_assoc, List.append_assoc, List.singleton_append, readObject, hread]
  rfl

end Record

/-! ### What is written -/

/-- The double is a number, and not infinite. -/
def Finite (x : Float) : Prop := (Binary64.ofFloat x).isFinite

/-- The double is read back if it can be. -/
def Faithful (x : Float) : Prop := Finite x → ReadsBack x

theorem AllFloats.readable {d : Json} (h : AllFloats Faithful d) (hfinite : AllFloats Finite d) :
    AllFloats Readable d :=
  fun x hx => ⟨hfinite x hx, h x hx (hfinite x hx)⟩

/-- What the codec writes is refused if there is a double in it that is not finite. -/
def Exacting {α : Type} (codec : Codec α) (rooms : Nat) : Prop :=
  ∀ a room, rooms ≤ room → AllFloats Faithful (codec.write a) → ¬ AllFloats Finite (codec.write a) →
    Refuses (codec.read room) (codec.write a)

namespace Exacting

/-- More levels of nesting do no harm. -/
theorem of_le {α : Type} {codec : Codec α} {rooms rooms' : Nat} (h : Exacting codec rooms)
    (hle : rooms ≤ rooms') : Exacting codec rooms' :=
  fun a room hroom => h a room (hle.trans hroom)

section

variable {α : Type} {codec : Codec α} {edit : Json → Json → Prop} {rooms : Nat}
  {told : Json → α → Prop}

/-- What is written is read back or refused. -/
theorem tells_or_refuses (h : Exacting codec rooms) (ht : Tolerant codec edit rooms told) (a : α)
    {room : Nat} (hroom : rooms ≤ room) (hfaithful : AllFloats Faithful (codec.write a)) :
    (∃ b, Tells (codec.read room) (codec.write a) b) ∨ Refuses (codec.read room) (codec.write a) := by
  by_cases hfinite : AllFloats Finite (codec.write a)
  · exact .inl ⟨a, ht.read hroom (ht.write a (hfaithful.readable hfinite))⟩
  · exact .inr (h a room hroom hfaithful hfinite)

theorem items (h : Exacting codec rooms) (ht : Tolerant codec edit rooms told) :
    Exacting (Codec.list codec) (rooms + 1) := by
  intro values room hroom hfaithful hfinite
  obtain ⟨room, rfl⟩ := Nat.exists_eq_add_of_le' (Nat.le_of_add_left_le hroom)
  replace hroom := Nat.le_of_add_le_add_right hroom
  replace hfaithful := List.forall_mem_map.mp (allFloats_array.mp hfaithful)
  refine refuses_list (List.forall_mem_map.mpr fun a ha =>
    h.tells_or_refuses ht a hroom (hfaithful a ha)) ?_
  by_contra hnone
  simp only [List.mem_map, exists_exists_and_eq_and, not_exists, not_and] at hnone
  refine hfinite (allFloats_array.mpr (List.forall_mem_map.mpr fun a ha => ?_))
  by_contra hbad
  exact hnone a ha (h a room hroom (hfaithful a ha) hbad)

end

section

variable {ρ : Type} {codec : (kind : Kind) → Codec kind.Value} {schema : Schema ρ} {rooms : Nat}

theorem record (inside : Kind → Json → Json → Prop)
    (told : (kind : Kind) → Json → kind.Value → Prop) (hlaw : schema.Lawful)
    (h : ∀ p ∈ schema.fields, Exacting (codec p.1.kind) rooms)
    (ht : ∀ p ∈ schema.fields, Tolerant (codec p.1.kind) (inside p.1.kind) rooms (told p.1.kind)) :
    Exacting (Codec.record codec schema) (rooms + 1) := by
  intro r room hroom hfaithful hfinite
  obtain ⟨room, rfl⟩ := Nat.exists_eq_add_of_le' (Nat.le_of_add_left_le hroom)
  replace hroom := Nat.le_of_add_le_add_right hroom
  replace hfaithful := List.forall_mem_map.mp (allFloats_object.mp hfaithful)
  refine refuses_record hlaw (fun p hp d hd => ?_) ?_
  · obtain ⟨q, hq, heq⟩ := List.mem_map.mp hd
    obtain rfl := hlaw.eq_of_key hq hp (congrArg Prod.fst heq)
    obtain rfl := congrArg Prod.snd heq
    exact (h q hq).tells_or_refuses (ht q hq) _ hroom (hfaithful q hq)
  · by_contra hnone
    simp only [not_exists, not_and] at hnone
    refine hfinite (allFloats_object.mpr (List.forall_mem_map.mpr fun p hp => ?_))
    by_contra hbad
    exact hnone p hp _ (List.mem_map_of_mem (f := fun p : Field ρ × Presence =>
      (p.1.key, (codec p.1.kind).write (p.1.get r))) hp) (h p hp _ room hroom (hfaithful p hp) hbad)

end

/-- What holds no doubles has none that is not finite. -/
theorem of_no_floats {α : Type} {codec : Codec α} {rooms : Nat}
    (h : ∀ a, (codec.write a).floats = []) : Exacting codec rooms :=
  fun a _ _ _ hfinite => absurd (fun x hx => absurd hx (by simp [h a])) hfinite

end Exacting

theorem exacting_text : Exacting Codec.text 0 :=
  .of_no_floats fun _ => by simp [Codec.text, floats]

theorem exacting_number : Exacting Codec.number 0 :=
  fun _ _ _ _ hfinite => refuses_number fun h => hfinite (allFloats_float.mpr h)

/-- Absent choices are written as `null` too, so those that are no numbers are not refused. -/
theorem exacting_leaf {kind : Kind}
    (h : kind ∉ [Kind.limit, .choice, .overrides, .items, .options]) :
    Exacting (Codec.leaf kind) 1 := by
  cases kind with
  | text => exact exacting_text.of_le (by decide)
  | flag => exact .of_no_floats fun _ => by simp [Codec.leaf, Codec.flag, floats]
  | number => exact exacting_number.of_le (by decide)
  | whole => exact .of_no_floats fun _ => by simp [Codec.leaf, Codec.whole, floats]
  | scalar =>
    intro v room _ _ hfinite
    cases v with
    | number x => exact refuses_scalar (fun h => hfinite (allFloats_float.mpr h)) room
    | bool b => exact absurd (fun x hx => absurd hx (by
        simp [Codec.leaf, Codec.scalar, writeScalar, floats])) hfinite
    | string s => exact absurd (fun x hx => absurd hx (by
        simp [Codec.leaf, Codec.scalar, writeScalar, floats])) hfinite
  | texts => exact exacting_text.items tolerant_text
  | numbers => exact exacting_number.items tolerant_number
  | limit => exact absurd (by decide) h
  | choice => exact absurd (by decide) h
  | overrides => exact absurd (by decide) h
  | items => exact absurd (by decide) h
  | options => exact absurd (by decide) h

theorem exacting_overrides : Exacting (Codec.inner .overrides) 3 := by
  have hkinds : ∀ p ∈ overrideSchema.fields,
      p.1.kind ∉ [Kind.limit, .choice, .overrides, .items, .options] := by decide
  have hkinds' : ∀ p ∈ overrideSchema.fields,
      p.1.kind ∉ [Kind.limit, .overrides, .items, .options] := by decide
  have hrecord : Exacting (Codec.record Codec.leaf overrideSchema) 2 :=
    .record Edit.leaf (fun kind => Tolerant.Written (Codec.leaf kind)) lawful_override
      (fun p hp => exacting_leaf (hkinds p hp)) fun p hp => tolerant_leaf (hkinds' p hp)
  exact hrecord.items tolerant_override

theorem exacting_ofKind {kind : Kind} (h : kind ∉ [Kind.limit, .choice, .items, .options]) :
    Exacting (Codec.ofKind kind) 5 := by
  have hleaf : kind ∉ [Kind.limit, .choice, .overrides, .items, .options] →
      Exacting (Codec.leaf kind) 5 := fun hkind => (exacting_leaf hkind).of_le (by decide)
  cases kind with
  | overrides => exact exacting_overrides.of_le (by decide)
  | limit => exact absurd (by decide) h
  | choice => exact absurd (by decide) h
  | items => exact absurd (by decide) h
  | options => exact absurd (by decide) h
  | _ => exact hleaf (by decide)

theorem no_limit_level : ∀ p ∈ levelSchema.fields, p.1.kind ≠ .limit := by decide

/-- The document of a level tells that level if its numbers are finite. -/
theorem tells_level {level : Level} (hfaithful : AllFloats Faithful (Codec.level.write level))
    (hfinite : AllFloats Finite (Codec.level.write level)) :
    Tells (Codec.level.read maxDepth) (Codec.level.write level) level :=
  tells_edited lawful_level no_limit_level (hfaithful.readable hfinite) .refl

/-- The document of a level is refused if one of its numbers is not finite. -/
theorem refuses_level {level : Level} (hfaithful : AllFloats Faithful (Codec.level.write level))
    (hfinite : ¬ AllFloats Finite (Codec.level.write level)) :
    Refuses (Codec.level.read maxDepth) (Codec.level.write level) := by
  have hkinds : ∀ p ∈ levelSchema.fields, p.1.kind ∉ [Kind.limit, .choice, .items, .options] := by
    decide
  exact Exacting.record Edit.ofKind Told.ofKind lawful_level
    (fun p hp => exacting_ofKind (hkinds p hp))
    (fun p hp => tolerant_ofKind (no_limit_level p hp)) level maxDepth (by decide) hfaithful hfinite

end LuaConfig.Json
