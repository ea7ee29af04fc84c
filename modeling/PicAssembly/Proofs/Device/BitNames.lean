import PicAssembly.Device.Description
import PicAssembly.Proofs.Device.OldNames
import PicAssembly.Proofs.Program.RoundTrip
import PicAssembly.Proofs.Text.Lines

/-!
# `PicAssembly.Proofs.Device.BitNames`: the form of new names of bits

A key is the name of a register, a point, and the name of a bit. Both are labels of the header
(`Device.exists_of_mem_bitNames`), and labels of a header that was read are names. The value is
the name of a field, which is a trimmed part of a line (`Device.trimmed_of_mem_fields`).
-/

set_option autoImplicit false

namespace PicAssembly

namespace Device

/-! ### Keys -/

variable {header : Program} {device : Device}

/-- The block of a register is a part of the header. -/
theorem mem_of_mem_bitBlock {register : Text} {s : Statement} (h : s ∈ bitBlock header register) :
    s ∈ header.statements := by
  rw [bitBlock] at h
  split at h
  · cases h
  · next rest hrest =>
    split at h
    · obtain ⟨line, hline, hs⟩ := List.mem_filterMap.mp h
      have hmem : line ∈ rest := (List.takeWhile_prefix _).subset hline
      obtain ⟨before, heading, hlines, -, -⟩ := afterLast?_eq_some_iff.mp hrest
      refine List.mem_filterMap.mpr ⟨line, ?_, hs⟩
      rw [hlines]
      exact List.mem_append_right before (List.mem_cons_of_mem heading hmem)
    · cases h

/-- The register and the bit at the place of a field are labels of the header. -/
theorem exists_labels_of_oldName? {field : Field} {register bit : Text}
    (h : oldName? header field = some (register, bit)) :
    (∃ s ∈ header.statements, s.label = some register) ∧
      ∃ s ∈ header.statements, s.label = some bit := by
  obtain ⟨⟨before, s, after, hsplit, hregister, -⟩, before', s', after', hsplit', hbit, -, -⟩ :=
    oldName?_eq_some_iff.mp h
  have hs : s ∈ header.statements := hsplit ▸ List.mem_append_right _ List.mem_cons_self
  have hs' : s' ∈ bitBlock header register := hsplit' ▸ List.mem_append_right _ List.mem_cons_self
  exact ⟨⟨s, hs, hregister.label⟩, s', mem_of_mem_bitBlock hs', hbit.label⟩

/-- A pair that is there afterwards was there before or is the one to be added. -/
theorem mem_addIfNew {pairs : List (Text × Text)} {key value : Text} {pair : Text × Text}
    (h : pair ∈ addIfNew pairs key value) : pair ∈ pairs ∨ pair = (key, value) := by
  rw [addIfNew] at h
  split at h
  · exact .inl h
  · exact (List.mem_append.mp h).imp_right List.mem_singleton.mp

/-- Every pair names a field, under the register and the bit at its place. -/
theorem exists_of_mem_addBitNames {fields : List Field} {pairs pairs' : List (Text × Text)}
    (h : addBitNames header device fields pairs = .ok pairs') {pair : Text × Text}
    (hpair : pair ∈ pairs') :
    pair ∈ pairs ∨ ∃ field ∈ fields, ∃ register bit,
      oldName? header field = some (register, bit) ∧
        pair = (register ++ '.' :: bit, field.name) := by
  induction fields generalizing pairs with
  | nil =>
      cases h
      exact .inl hpair
  | cons field fields ih =>
      -- A field adds at most one pair, in front of those that the other fields add.
      rw [addBitNames] at h
      split at h
      · rcases ih h with hmem | ⟨other, hother, hname⟩
        · split at hmem
          · next register bit hold =>
            rcases mem_addIfNew hmem with hmem | rfl
            · exact .inl hmem
            · exact .inr ⟨field, List.mem_cons_self, register, bit, hold, rfl⟩
          · exact .inl hmem
        · exact .inr ⟨other, List.mem_cons_of_mem field hother, hname⟩
      · cases h

/-- The labels of a header that was read are names. -/
theorem isName_label_of_parse {text : Text} (hheader : Program.parse text = .ok header)
    {s : Statement} (hs : s ∈ header.statements) {label : Text} (hlabel : s.label = some label) :
    Token.IsName label := by
  have hwell : ∀ line ∈ header.lines, line.WellFormed := Program.wellFormed_of_parse hheader
  obtain ⟨line, hline, hstatement⟩ := List.mem_filterMap.mp hs
  cases line with
  | directive d => cases hstatement
  | definition d => cases hstatement
  | statement s' =>
      cases hstatement
      exact Statement.WellFormed.label (hwell _ hline) label hlabel

/-- From a header that was read, every pair has names of the header in its key, and the name of
a field for its value. -/
theorem exists_of_mem_bitNames {text : Text} (hheader : Program.parse text = .ok header)
    {pairs : List (Text × Text)} (h : device.bitNames header = .ok pairs) {pair : Text × Text}
    (hpair : pair ∈ pairs) :
    ∃ register bit, Token.IsName register ∧ Token.IsName bit ∧ pair.1 = register ++ '.' :: bit ∧
      ∃ field ∈ device.fields, pair.2 = field.name := by
  obtain hmem | ⟨field, hfield, register, bit, hold, rfl⟩ := exists_of_mem_addBitNames h hpair
  · cases hmem
  · obtain ⟨⟨s, hs, hregister⟩, s', hs', hbit⟩ := exists_labels_of_oldName? hold
    exact ⟨register, bit, isName_label_of_parse hheader hs hregister,
      isName_label_of_parse hheader hs' hbit, rfl, field, hfield, rfl⟩

/-! ### Values -/

/-- The parts of a record are trimmed, and have no characters that are not in the record. -/
theorem trimmed_of_mem_parts {record part : Text} (h : part ∈ parts record) :
    Text.Trimmed part ∧ part ⊆ record := by
  obtain ⟨piece, hpiece, rfl⟩ := List.mem_map.mp h
  exact ⟨Text.trimmed_trim piece, fun c hc =>
    Text.subset_of_mem_splitAt hpiece (Text.mem_of_mem_trim hc)⟩

/-- The name of a field is a part of the record that it was read from. -/
theorem mem_parts_of_field? {record : Text} {field : Field} (h : field? record = some field) :
    field.name ∈ parts record := by
  rw [field?] at h
  split at h
  · next name address bit size rest hparts =>
    obtain ⟨_, -, h⟩ := Option.bind_eq_some_iff.mp h
    obtain ⟨_, -, h⟩ := Option.bind_eq_some_iff.mp h
    obtain ⟨_, -, h⟩ := Option.bind_eq_some_iff.mp h
    cases h
    rw [hparts]
    exact List.mem_cons_self
  · cases h

/-- A field that a line holds is described by a record in the line. -/
theorem exists_record_of_entryOf {line : Text} {field : Field} (h : entryOf line = .field field) :
    ∃ record, Text.dropFront? "SFRFLD=".toList line = some record ∧
      field? record = some field := by
  rw [entryOf] at h
  split at h
  · next record _ =>
    cases hregister : register? record with
    | none => rw [hregister] at h; cases h
    | some r => rw [hregister] at h; cases h
  · next record _ hrecord =>
    cases hfield : field? record with
    | none => rw [hfield] at h; cases h
    | some f =>
        rw [hfield] at h
        cases h
        exact ⟨record, hrecord, hfield⟩
  · cases h

/-- A field that a line holds has a trimmed part of the line for its name. -/
theorem trimmed_of_entryOf {line : Text} {field : Field} (h : entryOf line = .field field) :
    Text.Trimmed field.name ∧ field.name ⊆ line := by
  obtain ⟨record, hrecord, hfield⟩ := exists_record_of_entryOf h
  obtain ⟨htrimmed, hsubset⟩ := trimmed_of_mem_parts (mem_parts_of_field? hfield)
  refine ⟨htrimmed, fun c hc => ?_⟩
  rw [Text.dropFront?_eq_some_iff.mp hrecord]
  exact List.mem_append_right _ (hsubset hc)

/-- Every field of a device that was read stands on some line of the description. -/
theorem exists_line_of_mem_fields {number : Nat} {lines : List Text} {field : Field}
    (h : field ∈ (parseLines number lines).1.fields) :
    ∃ line ∈ lines, entryOf line = .field field := by
  induction lines generalizing number with
  | nil => cases h
  | cons line lines ih =>
      rw [parseLines] at h
      dsimp only at h
      -- All but a line that holds a field adds nothing to the fields of the lines behind it.
      have hrest (h : field ∈ (parseLines (number + 1) lines).1.fields) :
          ∃ line' ∈ line :: lines, entryOf line' = .field field := by
        obtain ⟨line', hline, hentry⟩ := ih h
        exact ⟨line', List.mem_cons_of_mem line hline, hentry⟩
      split at h
      case h_2 f hentry =>
        rcases List.mem_cons.mp h with rfl | h
        · exact ⟨line, List.mem_cons_self, hentry⟩
        · exact hrest h
      all_goals exact hrest h

/-- The name of a field is a trimmed part of a line. -/
theorem trimmed_of_mem_fields {text : Text} {field : Field}
    (h : field ∈ (Device.parse text).1.fields) :
    Text.Trimmed field.name ∧ '\n' ∉ field.name := by
  obtain ⟨line, hline, hentry⟩ := exists_line_of_mem_fields h
  obtain ⟨htrimmed, hsubset⟩ := trimmed_of_entryOf hentry
  exact ⟨htrimmed, fun hmem => Text.not_mem_of_mem_lines hline (hsubset hmem)⟩

end Device

end PicAssembly
