import Mathlib.Data.List.Nodup
import PicAssembly.Proofs.Device.BitNames

/-!
# `PicAssembly.Proofs.Device.FieldNames`: which bits of the old header the fields name

The header has a register and a bit for the place of a field, or none (`Device.OldName`). Field by
field, `Device.NewNames` says which pairs there are: the old name and the name of the field, unless
a field before it has the same old name.

`Device.Keeps` is what one field keeps (`Device.Keeps.addOldName`), and so all of them: the keys
are the old names of the fields so far, each of them once.

* `Device.bitNames_newNames`: the pairs of a device, or the first field without a register.
-/

set_option autoImplicit false

namespace PicAssembly

namespace Device

/-- There is a register at the address. -/
def HasRegisterAt (device : Device) (address : Nat) : Prop :=
  ∃ r ∈ device.registers, r.address = address

/-- The old name of a field in one text, as it is a key. -/
def HasKey (header : Program) (field : Field) (key : Text) : Prop :=
  ∃ register bit, OldName header field register bit ∧ key = register ++ '.' :: bit

/-- The pairs of some fields, behind those of the fields `earlier`: the old name with the name of
the field, for each field that has an old name which none before it has. -/
inductive NewNames (header : Program) : List Field → List Field → List (Text × Text) → Prop where
  | nil {earlier : List Field} : NewNames header earlier [] []
  | named {earlier fields : List Field} {field : Field} {key : Text}
      {pairs : List (Text × Text)} : HasKey header field key →
      (∀ other ∈ earlier, ¬ HasKey header other key) →
      NewNames header (earlier ++ [field]) fields pairs →
      NewNames header earlier (field :: fields) ((key, field.name) :: pairs)
  | passed {earlier fields : List Field} {field : Field} {pairs : List (Text × Text)} :
      (∀ key, HasKey header field key → ∃ other ∈ earlier, HasKey header other key) →
      NewNames header (earlier ++ [field]) fields pairs →
      NewNames header earlier (field :: fields) pairs

variable {header : Program} {device : Device} {field : Field} {fields earlier : List Field}
  {pairs : List (Text × Text)}

/-- The pairs with the one for a field, if it is new. -/
def addOldName (header : Program) (pairs : List (Text × Text)) (field : Field) :
    List (Text × Text) :=
  match oldName? header field with
  | some (register, bit) => addIfNew pairs (register ++ '.' :: bit) field.name
  | none => pairs

/-- The check on addresses asks for a register there. -/
theorem any_address_iff {address : Nat} :
    device.registers.any (·.address = address) ↔ device.HasRegisterAt address := by
  rw [List.any_eq_true]
  exact exists_congr fun r => and_congr_right fun _ => decide_eq_true_iff

/-- If there is a register for every field, the pairs of all fields are added one after the
other. -/
theorem addBitNames_of_forall (h : ∀ field ∈ fields, device.HasRegisterAt field.address) :
    addBitNames header device fields pairs = .ok (fields.foldl (addOldName header) pairs) := by
  induction fields generalizing pairs with
  | nil => rfl
  | cons field fields ih =>
      obtain ⟨hfield, hfields⟩ := List.forall_mem_cons.mp h
      rw [addBitNames, if_pos (any_address_iff.mpr hfield), ih hfields]
      rfl

/-- The first field without a register is the fault, whatever comes behind it. -/
theorem addBitNames_of_not (hbefore : ∀ field ∈ fields, device.HasRegisterAt field.address)
    (hfield : ¬ device.HasRegisterAt field.address) (after : List Field) :
    addBitNames header device (fields ++ field :: after) pairs
      = .error ⟨field.name, field.address⟩ := by
  induction fields generalizing pairs with
  | nil => rw [List.nil_append, addBitNames, if_neg (mt any_address_iff.mp hfield)]
  | cons first fields ih =>
      obtain ⟨hfirst, hfields⟩ := List.forall_mem_cons.mp hbefore
      rw [List.cons_append, addBitNames, if_pos (any_address_iff.mpr hfirst), ih hfields]

/-- The keys of the pairs are the old names of the fields so far, each of them once. -/
structure Keeps (header : Program) (earlier : List Field) (pairs : List (Text × Text)) : Prop where
  nodup : (pairs.map Prod.fst).Nodup
  mem_iff : ∀ key, key ∈ pairs.map Prod.fst ↔ ∃ other ∈ earlier, HasKey header other key

/-- The key of a field is computed from the old name that is looked up. -/
theorem hasKey_iff {key : Text} : HasKey header field key ↔
    (oldName? header field).map (fun old => old.1 ++ '.' :: old.2) = some key := by
  rw [Option.map_eq_some_iff]
  constructor
  · rintro ⟨register, bit, hold, rfl⟩
    exact ⟨(register, bit), oldName?_eq_some_iff.mpr hold, rfl⟩
  · rintro ⟨⟨register, bit⟩, hold, rfl⟩
    exact ⟨register, bit, oldName?_eq_some_iff.mp hold, rfl⟩

/-- A field with an old name adds its pair, unless the key is there. -/
theorem addOldName_of_hasKey {key : Text} (h : HasKey header field key) :
    addOldName header pairs field = addIfNew pairs key field.name := by
  obtain ⟨register, bit, hold, rfl⟩ := h
  rw [addOldName, oldName?_eq_some_iff.mpr hold]

/-- A field without an old name adds nothing. -/
theorem addOldName_of_forall (h : ∀ key, ¬ HasKey header field key) :
    addOldName header pairs field = pairs := by
  have hnone : oldName? header field = none := Option.eq_none_iff_forall_ne_some.mpr
    fun ⟨register, bit⟩ hold => h _ ⟨register, bit, oldName?_eq_some_iff.mp hold, rfl⟩
  rw [addOldName, hnone]

/-- A field has one key at most, since the old name is looked up. -/
theorem HasKey.unique {key key' : Text} (h : HasKey header field key)
    (h' : HasKey header field key') : key = key' :=
  Option.some.inj ((hasKey_iff.mp h).symm.trans (hasKey_iff.mp h'))

/-- A pair whose key is there is not added. -/
theorem addIfNew_of_mem {key value : Text} (h : key ∈ pairs.map Prod.fst) :
    addIfNew pairs key value = pairs := by
  obtain ⟨pair, hpair, hkey⟩ := List.mem_map.mp h
  rw [addIfNew, if_pos (List.any_eq_true.mpr ⟨pair, hpair, decide_eq_true hkey⟩)]

/-- A pair with a new key comes last. -/
theorem addIfNew_of_not_mem {key value : Text} (h : key ∉ pairs.map Prod.fst) :
    addIfNew pairs key value = pairs ++ [(key, value)] := by
  rw [addIfNew, if_neg]
  intro hany
  obtain ⟨pair, hpair, hkey⟩ := List.any_eq_true.mp hany
  exact h (List.mem_map.mpr ⟨pair, hpair, of_decide_eq_true hkey⟩)

/-- Among some fields and one more there is a field of a kind just if there is one among the first
or the last one is. -/
theorem exists_mem_concat_iff {P : Field → Prop} :
    (∃ other ∈ earlier ++ [field], P other) ↔ (∃ other ∈ earlier, P other) ∨ P field := by
  simp only [List.mem_append, List.mem_singleton, or_and_right, exists_or, exists_eq_left]

/-- One more field adds its pair if its old name is new, and nothing otherwise. -/
theorem Keeps.addOldName_cases (h : Keeps header earlier pairs) (field : Field) :
    (∃ key, HasKey header field key ∧ (∀ other ∈ earlier, ¬ HasKey header other key) ∧
      addOldName header pairs field = pairs ++ [(key, field.name)]) ∨
    ((∀ key, HasKey header field key → ∃ other ∈ earlier, HasKey header other key) ∧
      addOldName header pairs field = pairs) := by
  by_cases hkey : ∃ key, HasKey header field key
  · obtain ⟨key, hkey⟩ := hkey
    rw [addOldName_of_hasKey hkey]
    by_cases hmem : key ∈ pairs.map Prod.fst
    · refine .inr ⟨fun other hother => ?_, addIfNew_of_mem hmem⟩
      rw [← hkey.unique hother]
      exact (h.mem_iff key).mp hmem
    · refine .inl ⟨key, hkey, fun other hother hsame => ?_, addIfNew_of_not_mem hmem⟩
      exact hmem ((h.mem_iff key).mpr ⟨other, hother, hsame⟩)
  · have hnone : ∀ key, ¬ HasKey header field key := not_exists.mp hkey
    exact .inr ⟨fun key hfield => absurd hfield (hnone key), addOldName_of_forall hnone⟩

/-- One more field keeps the keys as they should be. It is the step of the invariant that a run over
all fields keeps. -/
theorem Keeps.addOldName (h : Keeps header earlier pairs) (field : Field) :
    Keeps header (earlier ++ [field]) (Device.addOldName header pairs field) := by
  rcases h.addOldName_cases field with ⟨key, hkey, hnew, heq⟩ | ⟨hold, heq⟩
  · have hmem : key ∉ pairs.map Prod.fst := by
      intro hmem
      obtain ⟨other, hother, hsame⟩ := (h.mem_iff key).mp hmem
      exact hnew other hother hsame
    rw [heq]
    refine ⟨?_, fun other => ?_⟩
    · rw [List.map_append]
      exact List.concat_eq_append ▸ h.nodup.concat hmem
    · rw [List.map_append, List.mem_append, h.mem_iff, exists_mem_concat_iff]
      refine or_congr_right ?_
      -- The keys of the new field are the one key that was added.
      show other ∈ [key] ↔ HasKey header field other
      rw [List.mem_singleton]
      exact ⟨fun h => h ▸ hkey, fun h => h.unique hkey⟩
  · rw [heq]
    refine ⟨h.nodup, fun key => ?_⟩
    rw [h.mem_iff, exists_mem_concat_iff]
    exact ⟨.inl, fun h => h.elim id (hold key)⟩

/-- The pairs of some fields come behind those of the fields before them. -/
theorem Keeps.newNames_foldl (h : Keeps header earlier pairs) (fields : List Field) :
    ∃ new, fields.foldl (Device.addOldName header) pairs = pairs ++ new ∧
      NewNames header earlier fields new ∧
      (fields.foldl (Device.addOldName header) pairs |>.map Prod.fst).Nodup := by
  induction fields generalizing earlier pairs with
  | nil => exact ⟨[], (List.append_nil pairs).symm, .nil, h.nodup⟩
  | cons field fields ih =>
      obtain ⟨new, heq, hnew, hnodup⟩ := ih (h.addOldName field)
      rw [List.foldl_cons]
      rcases h.addOldName_cases field with ⟨key, hkey, hfresh, hadd⟩ | ⟨hold, hadd⟩
      · refine ⟨(key, field.name) :: new, ?_, .named hkey hfresh hnew, hnodup⟩
        rw [heq, hadd, List.append_assoc, List.singleton_append]
      · refine ⟨new, ?_, .passed hold hnew, hnodup⟩
        rw [heq, hadd]

/-- A label of a header that was read has no blanks at its ends. -/
theorem trim_label_of_parse {text : Text} (hheader : Program.parse text = .ok header)
    {s : Statement} (hs : s ∈ header.statements) {label : Text} (hlabel : s.label = some label) :
    Text.trim label = label := by
  have hname := isName_label_of_parse hheader hs hlabel
  have hglue : ∀ c ∈ label, Token.isGlue c := fun c hc =>
    Token.isGlue_of_isIdentifierPart (hname.isIdentifierPart c hc)
  refine Text.trim_eq_self ⟨fun c hc => ?_, Token.solid_of_isGlue hglue⟩
  exact Token.isBlank_of_isGlue (hglue c (List.mem_of_head? hc))

/-- If every field is at the address of a register, the pairs have different keys and are, in the
order of the fields, the old name and the name of each field that has an old name which none before
it has. Otherwise the first field that is not is reported. Old names are nearest by the labels
without blanks at their ends, which is how the labels of a header are that was read. -/
theorem bitNames_newNames (header : Program) (device : Device) :
    (∀ before field after, device.fields = before ++ field :: after →
      (∀ other ∈ before, device.HasRegisterAt other.address) →
      ¬ device.HasRegisterAt field.address →
      device.bitNames header = .error ⟨field.name, field.address⟩) ∧
    ((∀ field ∈ device.fields, device.HasRegisterAt field.address) →
      ∃ pairs, device.bitNames header = .ok pairs ∧ (pairs.map Prod.fst).Nodup ∧
        NewNames header [] device.fields pairs) ∧
    ∀ text, Program.parse text = .ok header → ∀ s ∈ header.statements, ∀ label ∈ s.label,
      Text.trim label = label := by
  refine ⟨fun before field after hfields hbefore hfield => ?_, fun hfields => ?_,
    fun text hheader s hs label hlabel => trim_label_of_parse hheader hs hlabel⟩
  · rw [bitNames, hfields]
    exact addBitNames_of_not hbefore hfield after
  -- Before the first field there are no keys, so the invariant holds.
  · have hkeeps : Keeps header [] [] := ⟨List.nodup_nil, fun key => by simp⟩
    obtain ⟨new, heq, hnew, hnodup⟩ := hkeeps.newNames_foldl device.fields
    rw [List.nil_append] at heq
    rw [heq] at hnodup
    refine ⟨new, ?_, hnodup, hnew⟩
    rw [bitNames, addBitNames_of_forall hfields, heq]

/-- Two fields at one place and one that is named anew, and a field without a register. -/
theorem bitNames_newNames_status :
    let header : Program := ⟨[equLine "STATUS".toList 3 "H'3'".toList,
      remarkLine "STATUS Bits".toList, equLine "C".toList 0 "H'0'".toList,
      equLine "Z".toList 2 "H'2'".toList, equLine "ZERO".toList 2 "H'2'".toList,
      remarkLine "end".toList]⟩
    let fields : List Field := [⟨"CARRY".toList, 3, 0, 1⟩, ⟨"C".toList, 3, 0, 1⟩,
      ⟨"ZEROS".toList, 3, 2, 1⟩]
    let device : Device := ⟨[⟨"STATUS".toList, 3, 8⟩], fields⟩
    (∀ field ∈ fields, device.HasRegisterAt field.address) ∧
    NewNames header [] fields
      [("STATUS.C".toList, "CARRY".toList), ("STATUS.ZERO".toList, "ZEROS".toList)] ∧
    ¬ Device.HasRegisterAt ⟨[], fields⟩ 3 ∧
    bitNames header ⟨[], fields⟩ = .error ⟨"CARRY".toList, 3⟩ := by
  intro header fields device
  have hfields : ∀ field ∈ fields, device.HasRegisterAt field.address := by
    show ∀ field ∈ fields, ∃ r ∈ device.registers, r.address = field.address
    decide
  have hpairs : device.bitNames header
      = .ok [("STATUS.C".toList, "CARRY".toList), ("STATUS.ZERO".toList, "ZEROS".toList)] := by
    decide +kernel
  have hnone : ¬ Device.HasRegisterAt ⟨[], fields⟩ 3 := by
    rintro ⟨r, hr, -⟩
    cases hr
  refine ⟨hfields, ?_, hnone, ?_⟩
  · obtain ⟨pairs, hok, -, hnew⟩ := (bitNames_newNames header device).2.1 hfields
    rw [hpairs] at hok
    cases hok
    exact hnew
  · exact (bitNames_newNames header ⟨[], fields⟩).1 [] _ _ rfl nofun hnone

end Device

end PicAssembly
