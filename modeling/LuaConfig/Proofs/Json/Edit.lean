/-
Documents of records that have been edited.

The documents of levels and of mods may be edited without changing the record they tell: the members
of an object may come in another order, a member may be dropped where it has the value of the blank
record and its field may be missing, and members with other names may be added.  `Edits.record` is
one such change somewhere inside a document.

What carries the proof is a relation between documents and values (`Tolerant`): it holds of what is
written, every change keeps it, and a document in this relation is read as the value.  The main
statement is `parse_edited`.
-/
import LuaConfig.Json.Records
import LuaConfig.Proofs.Json.Record

namespace LuaConfig.Json

open Relation

/-! ### Edits -/

section

variable {ρ : Type} (codec : (kind : Kind) → Codec kind.Value)
  (inside : Kind → Json → Json → Prop) (schema : Schema ρ)

/-- One change to the members of an object that tells a record, or inside one of them. -/
inductive EditMembers : List (String × Json) → List (String × Json) → Prop
  | permute {members members' : List (String × Json)} (perm : members.Perm members') :
      EditMembers members members'
  | remove {front back : List (String × Json)} {field : Field ρ} {presence : Presence}
      (mem : (field, presence) ∈ schema.fields) (missing : presence ≠ .required) :
      EditMembers
        (front ++ (field.key, (codec field.kind).write (field.get schema.blank)) :: back)
        (front ++ back)
  | add {front back : List (String × Json)} {name : String}
      (unknown : ∀ p ∈ schema.fields, p.1.key ≠ name) (d : Json) :
      EditMembers (front ++ back) (front ++ (name, d) :: back)
  | change {front back : List (String × Json)} {field : Field ρ} {presence : Presence} {d d' : Json}
      (mem : (field, presence) ∈ schema.fields) (edit : inside field.kind d d') :
      EditMembers (front ++ (field.key, d) :: back) (front ++ (field.key, d') :: back)

/-- One change to a record. -/
inductive EditRecord : Json → Json → Prop
  | members {members members' : List (String × Json)}
      (edit : EditMembers codec inside schema members members') :
      EditRecord (.object members) (.object members')

end

/-- One change to an element of a list. -/
inductive EditItems (inside : Json → Json → Prop) : Json → Json → Prop
  | item {front back : List Json} {d d' : Json} (edit : inside d d') :
      EditItems inside (.array (front ++ d :: back)) (.array (front ++ d' :: back))

/-- One change inside a value that holds no records: there is none. -/
def Edit.leaf : Kind → Json → Json → Prop := fun _ _ _ => False

/-- One change inside a value that holds records of leaves. -/
def Edit.inner : Kind → Json → Json → Prop
  | .overrides => EditItems (EditRecord Codec.leaf Edit.leaf overrideSchema)
  | .items => EditItems (EditRecord Codec.leaf Edit.leaf itemSchema)
  | kind => Edit.leaf kind

/-- One change inside any value. -/
def Edit.ofKind : Kind → Json → Json → Prop
  | .options => EditItems (EditRecord Codec.inner Edit.inner optionSchema)
  | kind => Edit.inner kind

/-- The document can be reached from another by changes that leave the record as it is. -/
def Edited {ρ : Type} (schema : Schema ρ) : Json → Json → Prop :=
  ReflTransGen (EditRecord Codec.ofKind Edit.ofKind schema)

/-! ### Numbers -/

mutual

/-- The doubles of a document. -/
def floats : Json → List Float
  | float x => [x]
  | array items => floatsOfItems items
  | object members => floatsOfMembers members
  | _ => []

def floatsOfItems : List Json → List Float
  | [] => []
  | item :: rest => item.floats ++ floatsOfItems rest

def floatsOfMembers : List (String × Json) → List Float
  | [] => []
  | (_, value) :: rest => value.floats ++ floatsOfMembers rest

end

theorem mem_floatsOfItems {items : List Json} {x : Float} :
    x ∈ floatsOfItems items ↔ ∃ item ∈ items, x ∈ item.floats := by
  induction items with
  | nil => simp [floatsOfItems]
  | cons first rest ih => simp [floatsOfItems, ih]

theorem mem_floatsOfMembers {members : List (String × Json)} {x : Float} :
    x ∈ floatsOfMembers members ↔ ∃ member ∈ members, x ∈ member.2.floats := by
  induction members with
  | nil => simp [floatsOfMembers]
  | cons first rest ih => simp [floatsOfMembers, ih]

/-- Every double of the document has the property. -/
def AllFloats (P : Float → Prop) (d : Json) : Prop := ∀ x ∈ d.floats, P x

theorem allFloats_array {P : Float → Prop} {items : List Json} :
    AllFloats P (.array items) ↔ ∀ item ∈ items, AllFloats P item := by
  simp only [AllFloats, floats, mem_floatsOfItems]
  exact ⟨fun h item hitem x hx => h x ⟨item, hitem, hx⟩, fun h x ⟨item, hitem, hx⟩ => h item hitem x hx⟩

theorem allFloats_object {P : Float → Prop} {members : List (String × Json)} :
    AllFloats P (.object members) ↔ ∀ member ∈ members, AllFloats P member.2 := by
  simp only [AllFloats, floats, mem_floatsOfMembers]
  exact ⟨fun h member hmember x hx => h x ⟨member, hmember, hx⟩,
    fun h x ⟨member, hmember, hx⟩ => h member hmember x hx⟩

theorem allFloats_float {P : Float → Prop} {x : Float} : AllFloats P (.float x) ↔ P x := by
  simp [AllFloats, floats]

/-! ### Changes to the members -/

namespace Describes

variable {ρ : Type} {schema : Schema ρ} {told : (kind : Kind) → Json → kind.Value → Prop}
  {front back : List (String × Json)} {field : Field ρ} {presence : Presence} {r : ρ}

theorem permute {members members' : List (String × Json)} (h : Describes schema told members r)
    (perm : members.Perm members') : Describes schema told members' r where
  once p hp := (perm.map Prod.fst).count_eq _ ▸ h.once p hp
  value p hp d hd := h.value p hp d (perm.mem_iff.mpr hd)
  absent p hp hmissing := h.absent p hp fun hmem => hmissing ((perm.map Prod.fst).mem_iff.mp hmem)

/-- A member may go if it tells no other value than that of the blank record. -/
theorem remove {d : Json} (h : Describes schema told (front ++ (field.key, d) :: back) r)
    (hlaw : schema.Lawful) (mem : (field, presence) ∈ schema.fields)
    (missing : presence ≠ .required)
    (hunique : ∀ v, told field.kind d v → v = field.get schema.blank) :
    Describes schema told (front ++ back) r where
  once p hp := by
    have hsub := (List.sublist_cons_self (field.key, d) back).append_left front
    exact ((hsub.map Prod.fst).count_le _).trans (h.once p hp)
  value p hp e he := by
    refine h.value p hp e ?_
    simp only [List.mem_append, List.mem_cons] at he ⊢
    tauto
  absent p hp hmissing := by
    by_cases hkey : p.1.key = field.key
    · obtain rfl := hlaw.eq_of_key hp mem hkey
      exact ⟨missing, hunique _ (h.value _ mem d (by simp))⟩
    · refine h.absent p hp fun hmem => hmissing ?_
      simp only [List.map_append, List.map_cons, List.mem_append, List.mem_cons] at hmem ⊢
      tauto

theorem add {name : String} (h : Describes schema told (front ++ back) r)
    (unknown : ∀ p ∈ schema.fields, p.1.key ≠ name) (d : Json) :
    Describes schema told (front ++ (name, d) :: back) r where
  once p hp := by
    have hne : name ≠ p.1.key := (unknown p hp).symm
    simpa [List.count_append, List.count_cons_of_ne hne] using h.once p hp
  value p hp e he := by
    have hne := unknown p hp
    refine h.value p hp e ?_
    simp only [List.mem_append, List.mem_cons, Prod.mk.injEq] at he ⊢
    tauto
  absent p hp hmissing := by
    refine h.absent p hp fun hmem => hmissing ?_
    simp only [List.map_append, List.map_cons, List.mem_append, List.mem_cons] at hmem ⊢
    tauto

theorem change {d d' : Json} (h : Describes schema told (front ++ (field.key, d) :: back) r)
    (hlaw : schema.Lawful) (mem : (field, presence) ∈ schema.fields)
    (hedit : ∀ v, told field.kind d v → told field.kind d' v) :
    Describes schema told (front ++ (field.key, d') :: back) r where
  once p hp := by simpa using h.once p hp
  value p hp e he := by
    have hvalue := h.value p hp e
    simp only [List.mem_append, List.mem_cons, Prod.mk.injEq] at he hvalue
    rcases he with he | ⟨hkey, rfl⟩ | he
    · exact hvalue (.inl he)
    · obtain rfl := hlaw.eq_of_key hp mem hkey
      exact hedit _ (h.value _ mem d (by simp))
    · exact hvalue (.inr (.inr he))
  absent p hp hmissing := h.absent p hp (by simpa using hmissing)

end Describes

/-! ### Documents that tell a value -/

/-- A relation between documents and values that holds of what is written, is kept by every change,
and implies that the value is read.  Reading takes `rooms` levels of nesting. -/
structure Tolerant {α : Type} (codec : Codec α) (edit : Json → Json → Prop) (rooms : Nat)
    (told : Json → α → Prop) : Prop where
  write : ∀ a, AllFloats Readable (codec.write a) → told (codec.write a) a
  edit : ∀ {d d' a}, edit d d' → told d a → told d' a
  unique : ∀ {a b}, told (codec.write b) a → a = b
  read : ∀ {d a room}, rooms ≤ room → told d a → Tells (codec.read room) d a

namespace Tolerant

/-- More levels of nesting do no harm. -/
theorem of_le {α : Type} {codec : Codec α} {edit : Json → Json → Prop} {rooms rooms' : Nat}
    {told : Json → α → Prop} (h : Tolerant codec edit rooms told) (hle : rooms ≤ rooms') :
    Tolerant codec edit rooms' told :=
  { h with read := fun hroom => h.read (hle.trans hroom) }

section Items

variable {α : Type} {element : Codec α} {edit : Json → Json → Prop} {rooms : Nat}
  {told : Json → α → Prop}

/-- An array whose elements tell those of a list. -/
def Items (told : Json → α → Prop) (d : Json) (values : List α) : Prop :=
  ∃ items, d = .array items ∧ List.Forall₂ told items values

theorem forall₂_change {front back : List Json} {d d' : Json} {values : List α}
    (h : List.Forall₂ told (front ++ d :: back) values) (hd : ∀ a, told d a → told d' a) :
    List.Forall₂ told (front ++ d' :: back) values := by
  induction front generalizing values with
  | nil =>
    cases h with
    | cons ha hback => exact .cons (hd _ ha) hback
  | cons item front ih =>
    cases h with
    | cons ha hrest => exact .cons ha (ih hrest)

theorem items (h : Tolerant element edit rooms told) :
    Tolerant (Codec.list element) (EditItems edit) (rooms + 1) (Items told) where
  write values hreadable := by
    refine ⟨_, rfl, List.forall₂_map_left_iff.mpr (List.forall₂_same.mpr fun a ha => ?_)⟩
    exact h.write a (allFloats_array.mp hreadable _ (List.mem_map_of_mem ha))
  edit := by
    rintro _ _ values ⟨hedit⟩ ⟨_, ⟨⟩, hitems⟩
    exact ⟨_, rfl, forall₂_change hitems fun a => h.edit hedit⟩
  unique := by
    rintro values values' ⟨_, ⟨⟩, hitems⟩
    have heq : List.Forall₂ (fun b a => a = b) values' values :=
      (List.forall₂_map_left_iff.mp hitems).imp fun _ _ => h.unique
    exact (congrFun₂ List.forall₂_eq_eq_eq values values').mp heq.flip
  read := by
    rintro _ values room hroom ⟨items, rfl, hitems⟩
    obtain ⟨room, rfl⟩ := Nat.exists_eq_add_of_le' (Nat.le_of_add_left_le hroom)
    exact tells_list (hitems.imp fun _ _ => h.read (Nat.le_of_add_le_add_right hroom))

end Items

section Record

variable {ρ : Type} {codec : (kind : Kind) → Codec kind.Value}
  {inside : Kind → Json → Json → Prop} {schema : Schema ρ} {rooms : Nat}
  {told : (kind : Kind) → Json → kind.Value → Prop}

/-- An object whose members describe a record. -/
def Object (schema : Schema ρ) (told : (kind : Kind) → Json → kind.Value → Prop) (d : Json)
    (r : ρ) : Prop :=
  ∃ members, d = .object members ∧ Describes schema told members r

theorem describes_write (hlaw : schema.Lawful)
    (h : ∀ p ∈ schema.fields, Tolerant (codec p.1.kind) (inside p.1.kind) rooms (told p.1.kind))
    {r : ρ} (hreadable : AllFloats Readable ((Codec.record codec schema).write r)) :
    Describes schema told
      (schema.fields.map fun p => (p.1.key, (codec p.1.kind).write (p.1.get r))) r where
  once p _ := by
    rw [List.map_map]
    exact List.nodup_iff_count_le_one.mp hlaw.nodup_keys p.1.key
  value p hp d hd := by
    obtain ⟨q, hq, heq⟩ := List.mem_map.mp hd
    obtain rfl := hlaw.eq_of_key hq hp (congrArg Prod.fst heq)
    obtain rfl := congrArg Prod.snd heq
    exact (h q hq).write _ (allFloats_object.mp hreadable _ hd)
  absent p hp hmissing := by
    refine absurd ?_ hmissing
    rw [List.map_map]
    exact List.mem_map_of_mem (f := fun p : Field ρ × Presence => p.1.key) hp

theorem record (hlaw : schema.Lawful)
    (h : ∀ p ∈ schema.fields, Tolerant (codec p.1.kind) (inside p.1.kind) rooms (told p.1.kind)) :
    Tolerant (Codec.record codec schema) (EditRecord codec inside schema) (rooms + 1)
      (Object schema told) where
  write r hreadable := ⟨_, rfl, describes_write hlaw h hreadable⟩
  edit := by
    rintro _ _ r ⟨hedit⟩ ⟨_, ⟨⟩, hr⟩
    refine ⟨_, rfl, ?_⟩
    cases hedit with
    | permute perm => exact hr.permute perm
    | remove mem missing => exact hr.remove hlaw mem missing fun v => (h _ mem).unique
    | add unknown d => exact hr.add unknown d
    | change mem edit => exact hr.change hlaw mem fun v => (h _ mem).edit edit
  unique := by
    rintro r r' ⟨_, ⟨⟩, hr⟩
    refine Field.Complete.ext hlaw (List.forall_mem_map.mpr fun p hp => (h p hp).unique ?_)
    refine hr.value p hp _ (List.mem_map_of_mem (f := fun p : Field ρ × Presence =>
      (p.1.key, (codec p.1.kind).write (p.1.get r'))) hp)
  read := by
    rintro _ r room hroom ⟨members, rfl, hr⟩
    obtain ⟨room, rfl⟩ := Nat.exists_eq_add_of_le' (Nat.le_of_add_left_le hroom)
    exact tells_record hlaw
      (fun p hp d v => (h p hp).read (Nat.le_of_add_le_add_right hroom)) hr

end Record

/-- A value that cannot be changed is told by what is written for it alone. -/
def Written {α : Type} (codec : Codec α) (d : Json) (a : α) : Prop :=
  d = codec.write a ∧ AllFloats Readable d

theorem written {α : Type} {codec : Codec α} {rooms : Nat}
    (hinj : Function.Injective codec.write)
    (hread : ∀ a room, rooms ≤ room → AllFloats Readable (codec.write a) →
      Tells (codec.read room) (codec.write a) a) :
    Tolerant codec (fun _ _ => False) rooms (Written codec) where
  write _ hreadable := ⟨rfl, hreadable⟩
  edit := False.elim
  unique h := hinj h.1.symm
  read := by
    rintro d a room hroom ⟨rfl, hreadable⟩
    exact hread a room hroom hreadable

theorem written_list {α : Type} {element : Codec α} (hinj : Function.Injective element.write)
    (hread : ∀ a room, AllFloats Readable (element.write a) →
      Tells (element.read room) (element.write a) a) :
    Tolerant (Codec.list element) (fun _ _ => False) 1 (Written (Codec.list element)) := by
  refine written (fun _ _ h => List.map_injective_iff.mpr hinj (array.inj h)) ?_
  intro items room hroom hreadable
  obtain ⟨room, rfl⟩ := Nat.exists_eq_add_of_le' hroom
  refine tells_list (List.forall₂_map_left_iff.mpr (List.forall₂_same.mpr fun a ha => ?_))
  exact hread a room (allFloats_array.mp hreadable _ (List.mem_map_of_mem ha))

end Tolerant

/-! ### The values of each kind -/

theorem writeScalar_injective : Function.Injective writeScalar := by
  intro v w h
  cases v <;> cases w <;> cases h <;> rfl

theorem choice_write_injective : Function.Injective Codec.choice.write := by
  rintro (_ | v) (_ | w) h
  · rfl
  · cases w <;> cases h
  · cases v <;> cases h
  · exact congrArg some (writeScalar_injective h)

theorem Readable.of_scalar {v : Scalar} (h : AllFloats Readable (writeScalar v)) :
    ∀ x, v = .number x → Readable x := by
  rintro x rfl
  exact allFloats_float.mp h

theorem tells_number_of_readable {x : Float} (h : AllFloats Readable (.float x)) :
    Tells readFloat (.float x) x :=
  tells_number (allFloats_float.mp h)

theorem tolerant_text : Tolerant Codec.text (fun _ _ => False) 0 (Tolerant.Written Codec.text) :=
  Tolerant.written (fun _ _ => string.inj) fun s _ _ _ => tells_text s

theorem tolerant_number :
    Tolerant Codec.number (fun _ _ => False) 0 (Tolerant.Written Codec.number) :=
  Tolerant.written (fun _ _ => float.inj) fun _ _ _ hx => tells_number_of_readable hx

/-- Limits are not among the values of records: not every number is one that can be read. -/
theorem tolerant_leaf {kind : Kind} (h : kind ∉ [Kind.limit, .overrides, .items, .options]) :
    Tolerant (Codec.leaf kind) (Edit.leaf kind) 1 (Tolerant.Written (Codec.leaf kind)) := by
  cases kind with
  | text => exact tolerant_text.of_le (by decide)
  | flag => exact Tolerant.written (fun _ _ => bool.inj) fun b _ _ _ => tells_flag b
  | number => exact tolerant_number.of_le (by decide)
  | whole =>
    exact Tolerant.written (fun _ _ h => Int64.toInt_inj.mp (integer.inj h)) fun n _ _ _ =>
      tells_whole n
  | scalar =>
    exact Tolerant.written writeScalar_injective fun v room _ hv =>
      tells_scalar (Readable.of_scalar hv) room
  | choice =>
    refine Tolerant.written choice_write_injective fun v room _ hv => tells_choice ?_ room
    rintro x rfl
    have hx : AllFloats Readable (writeScalar (.number x)) := hv
    exact Readable.of_scalar hx x rfl
  | texts => exact Tolerant.written_list (fun _ _ => string.inj) fun s _ _ => tells_text s
  | numbers =>
    exact Tolerant.written_list (fun _ _ => float.inj) fun x _ hx => tells_number_of_readable hx
  | limit => exact absurd (by decide) h
  | overrides => exact absurd (by decide) h
  | items => exact absurd (by decide) h
  | options => exact absurd (by decide) h

theorem tolerant_override :
    Tolerant (Codec.record Codec.leaf overrideSchema) (EditRecord Codec.leaf Edit.leaf overrideSchema)
      2 (Tolerant.Object overrideSchema fun kind => Tolerant.Written (Codec.leaf kind)) := by
  have hkinds : ∀ p ∈ overrideSchema.fields,
      p.1.kind ∉ [Kind.limit, .overrides, .items, .options] := by decide
  exact Tolerant.record lawful_override fun p hp => tolerant_leaf (hkinds p hp)

theorem tolerant_item :
    Tolerant (Codec.record Codec.leaf itemSchema) (EditRecord Codec.leaf Edit.leaf itemSchema)
      2 (Tolerant.Object itemSchema fun kind => Tolerant.Written (Codec.leaf kind)) := by
  have hkinds : ∀ p ∈ itemSchema.fields,
      p.1.kind ∉ [Kind.limit, .overrides, .items, .options] := by decide
  exact Tolerant.record lawful_item fun p hp => tolerant_leaf (hkinds p hp)

/-- What tells a value that holds records of leaves. -/
def Told.inner : (kind : Kind) → Json → kind.Value → Prop
  | .overrides => Tolerant.Items (Tolerant.Object overrideSchema fun kind =>
      Tolerant.Written (Codec.leaf kind))
  | .items => Tolerant.Items (Tolerant.Object itemSchema fun kind =>
      Tolerant.Written (Codec.leaf kind))
  | kind => Tolerant.Written (Codec.leaf kind)

/-- What tells any value. -/
def Told.ofKind : (kind : Kind) → Json → kind.Value → Prop
  | .options => Tolerant.Items (Tolerant.Object optionSchema Told.inner)
  | kind => Told.inner kind

theorem tolerant_inner {kind : Kind} (h : kind ∉ [Kind.limit, .options]) :
    Tolerant (Codec.inner kind) (Edit.inner kind) 3 (Told.inner kind) := by
  have hleaf : kind ∉ [Kind.limit, .overrides, .items, .options] →
      Tolerant (Codec.leaf kind) (Edit.leaf kind) 3 (Tolerant.Written (Codec.leaf kind)) :=
    fun hkind => (tolerant_leaf hkind).of_le (by decide)
  cases kind with
  | overrides => exact tolerant_override.items
  | items => exact tolerant_item.items
  | options => exact absurd (by decide) h
  | limit => exact absurd (by decide) h
  | _ => exact hleaf (by decide)

theorem tolerant_ofKind {kind : Kind} (h : kind ≠ .limit) :
    Tolerant (Codec.ofKind kind) (Edit.ofKind kind) 5 (Told.ofKind kind) := by
  have hinner : kind ∉ [Kind.limit, .options] →
      Tolerant (Codec.inner kind) (Edit.inner kind) 5 (Told.inner kind) :=
    fun hkind => (tolerant_inner hkind).of_le (by decide)
  have hoption : ∀ p ∈ optionSchema.fields, p.1.kind ∉ [Kind.limit, .options] := by decide
  cases kind with
  | options => exact (Tolerant.record lawful_option fun p hp => tolerant_inner (hoption p hp)).items
  | limit => exact absurd rfl h
  | _ => exact hinner (by decide)

/-! ### Edited documents -/

section Edited

variable {ρ : Type} {schema : Schema ρ} (hlaw : schema.Lawful)
  (hkinds : ∀ p ∈ schema.fields, p.1.kind ≠ .limit)

include hlaw hkinds

theorem tolerant_ofSchema :
    Tolerant (Codec.ofSchema schema) (EditRecord Codec.ofKind Edit.ofKind schema) 6
      (Tolerant.Object schema Told.ofKind) :=
  Tolerant.record hlaw fun p hp => tolerant_ofKind (hkinds p hp)

/-- However its document has been edited, a record is read from it. -/
theorem tells_edited {r : ρ} {d : Json} (hreadable : AllFloats Readable ((Codec.ofSchema schema).write r))
    (hedited : Edited schema ((Codec.ofSchema schema).write r) d) :
    Tells ((Codec.ofSchema schema).read maxDepth) d r := by
  have htolerant := tolerant_ofSchema hlaw hkinds
  refine htolerant.read (by decide) ?_
  induction hedited with
  | refl => exact htolerant.write r hreadable
  | tail _ hedit ih => exact htolerant.edit hedit ih

end Edited

/-- A level and a mod are read from their documents, compact or pretty, after any edits that leave
the record as it is, if all their numbers are finite and read back. -/
theorem parse_edited :
    (∀ (level : Level) (d : Json),
      (∀ x ∈ (Codec.level.write level).floats, (Decimal.Binary64.ofFloat x).isFinite) →
      (∀ x ∈ (Codec.level.write level).floats, ReadsBack x) →
      Edited levelSchema (Codec.level.write level) d →
      Codec.level.parse d.compact = .ok level ∧ Codec.level.parse d.pretty = .ok level) ∧
    ∀ (info : ModInfo) (d : Json),
      (∀ x ∈ (Codec.modInfo.write info).floats, (Decimal.Binary64.ofFloat x).isFinite) →
      (∀ x ∈ (Codec.modInfo.write info).floats, ReadsBack x) →
      Edited modInfoSchema (Codec.modInfo.write info) d →
      Codec.modInfo.parse d.compact = .ok info ∧ Codec.modInfo.parse d.pretty = .ok info := by
  refine ⟨fun level d hfinite hback hedited => ?_, fun info d hfinite hback hedited => ?_⟩
  · have htells := tells_edited lawful_level (by decide)
      (fun x hx => ⟨hfinite x hx, hback x hx⟩) hedited
    exact ⟨parse_compact htells, parse_pretty htells⟩
  · have htells := tells_edited lawful_modInfo (by decide)
      (fun x hx => ⟨hfinite x hx, hback x hx⟩) hedited
    exact ⟨parse_compact htells, parse_pretty htells⟩

/-- The members of a level are reversed, and one with another name is put in front of them. -/
theorem parse_edited_reversed :
    let level : Level := { version := 1.5, overrides := [⟨"day", .number 0.25⟩] }
    let members := levelSchema.fields.map fun p =>
      (p.1.key, (Codec.ofKind p.1.kind).write (p.1.get level))
    let d := object (("seed", .integer 7) :: members.reverse)
    (∀ x ∈ (Codec.level.write level).floats, (Decimal.Binary64.ofFloat x).isFinite) ∧
      (∀ x ∈ (Codec.level.write level).floats, ReadsBack x) ∧
      Edited levelSchema (Codec.level.write level) d ∧
      Codec.level.parse d.compact = .ok level ∧ Codec.level.parse d.pretty = .ok level := by
  intro level members d
  have hfinite : ∀ x ∈ (Codec.level.write level).floats,
      (Decimal.Binary64.ofFloat x).isFinite := by decide +kernel
  have hback : ∀ x ∈ (Codec.level.write level).floats, ReadsBack x := by
    unfold ReadsBack
    decide +kernel
  have hreverse : EditRecord Codec.ofKind Edit.ofKind levelSchema (Codec.level.write level)
      (object members.reverse) := .members (.permute (List.reverse_perm members).symm)
  have hadd : EditRecord Codec.ofKind Edit.ofKind levelSchema (object members.reverse) d := by
    have hseed : ∀ p ∈ levelSchema.fields, p.1.key ≠ "seed" := by decide
    have hmembers : EditMembers Codec.ofKind Edit.ofKind levelSchema ([] ++ members.reverse)
        ([] ++ ("seed", .integer 7) :: members.reverse) := .add hseed _
    exact .members hmembers
  have hedited : Edited levelSchema (Codec.level.write level) d :=
    (ReflTransGen.single hreverse).tail hadd
  exact ⟨hfinite, hback, hedited, parse_edited.1 level d hfinite hback hedited⟩

end LuaConfig.Json
