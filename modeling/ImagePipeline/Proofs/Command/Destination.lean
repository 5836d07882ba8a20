import Mathlib.Data.List.DropRight
import ImagePipeline.Command.Run

/-!
# Where an image goes that was given no destination

Such an image goes beside its source. The name that it gets there is the stem of the source's name
with an ending that does not start with a dot, while the source's name is its stem alone or goes on
with a dot behind it (`FilePath.Stem`); so the two names differ, and the source is not written over
(`Command.destination_beside_source`).
-/

namespace ImagePipeline

namespace FilePath

variable {path name stem : List Char}

/-! ### Stems -/

/-- A name and its stem: the whole name when there is no dot in it or only the one in front, and
what stands before the last dot otherwise. -/
inductive Stem : List Char → List Char → Prop where
  | undotted {name : List Char} (undotted : '.' ∉ name) : Stem name name
  | hidden {rest : List Char} (undotted : '.' ∉ rest) : Stem ('.' :: rest) ('.' :: rest)
  | dotted {stem extension : List Char} (nonempty : stem ≠ []) (undotted : '.' ∉ extension) :
      Stem (stem ++ '.' :: extension) stem

theorem stem_stemOf (name : List Char) : Stem name (stemOf name) := by
  by_cases hdot : '.' ∈ name
  · -- the last dot is the first one of the reversed name
    obtain ⟨extension, before, hreverse, hextension⟩ :=
      List.eq_append_cons_of_mem (List.mem_reverse.mpr hdot)
    have hname : name = before.reverse ++ '.' :: extension.reverse := by
      rw [← List.reverse_reverse name, hreverse]
      simp
    have hundotted : '.' ∉ extension.reverse := mt List.mem_reverse.mp hextension
    rw [stemOf, hreverse, Text.cutAt_append_cons hextension]
    cases before with
    | nil =>
      rw [hname]
      exact .hidden hundotted
    | cons c before =>
      rw [hname]
      exact .dotted (List.reverse_ne_nil_iff.mpr (List.cons_ne_nil c before)) hundotted
  · have hreverse : '.' ∉ name.reverse := mt List.mem_reverse.mp hdot
    rw [stemOf, Text.cutAt_of_notMem hreverse]
    exact .undotted hdot

theorem Stem.subset (h : Stem name stem) : stem ⊆ name := by
  cases h with
  | undotted => exact List.Subset.refl _
  | hidden => exact List.Subset.refl _
  | dotted => exact List.subset_append_left _ _

/-- Behind the stem a name ends, or goes on with a dot. -/
theorem Stem.append_ne (h : Stem name stem) {c : Char} (hc : c ≠ '.') (ending : List Char) :
    stem ++ c :: ending ≠ name := by
  have hlonger : stem ++ c :: ending ≠ stem := by simp
  cases h with
  | undotted => exact hlonger
  | hidden => exact hlonger
  | dotted =>
    intro hsame
    rw [List.append_cancel_left_eq, List.cons.injEq] at hsame
    exact hc hsame.1

/-! ### Components -/

theorem trimmed_concat (hname : isSilent name = false) (parts : List (List Char)) :
    trimmed (parts ++ [name]) = parts ++ [name] := by
  cases parts with
  | nil => rfl
  | cons first rest =>
    have hkept : List.rdropWhile isSilent (rest ++ [name]) = rest ++ [name] :=
      List.rdropWhile_concat_neg _ _ _ (by simp [hname])
    exact congrArg (first :: ·) hkept

theorem trimmed_trimmed (parts : List (List Char)) : trimmed (trimmed parts) = trimmed parts := by
  cases parts with
  | nil => rfl
  | cons first rest => exact congrArg (first :: ·) (List.rdropWhile_idempotent isSilent rest)

theorem trimmed_subset (parts : List (List Char)) : trimmed parts ⊆ parts := by
  cases parts with
  | nil => exact List.Subset.refl _
  | cons first rest =>
    exact List.cons_subset_cons first (List.rdropWhile_prefix isSilent rest).subset

theorem notMem_of_mem_components {part : List Char} (h : part ∈ components path) : '/' ∉ part :=
  Text.notMem_of_mem_pieces (trimmed_subset _ h)

/-- A text that can stand at the end of a path as the name of a file. -/
structure IsName (name : List Char) : Prop where
  unbroken : '/' ∉ name
  heard : isSilent name = false
  notUp : name ≠ ['.', '.']

theorem IsName.nonempty (h : IsName name) : name ≠ [] := by
  rintro rfl
  exact absurd h.heard (by decide)

theorem nameOf?_eq_some_iff :
    nameOf? path = some name ↔ (components path).getLast? = some name ∧ IsName name := by
  unfold nameOf?
  cases hlast : (components path).getLast? with
  | none => simp
  | some last =>
    have hunbroken : '/' ∉ last := notMem_of_mem_components (List.mem_of_getLast? hlast)
    by_cases hname : isSilent last || last == ['.', '.']
    · simp only [hname, if_true, reduceCtorEq, Option.some.injEq, false_iff, not_and]
      rintro rfl h
      simp [h.heard, h.notUp] at hname
    · simp only [hname, Bool.false_eq_true, if_false, Option.some.injEq, iff_self_and]
      rintro rfl
      rw [Bool.or_eq_true, not_or, Bool.not_eq_true, beq_iff_eq] at hname
      exact ⟨hunbroken, hname.1, hname.2⟩

/-! ### Beside a file -/

theorem trimmed_directoryOf (path : List Char) : trimmed (directoryOf path) = directoryOf path := by
  unfold directoryOf
  split
  · rfl
  · exact trimmed_trimmed _
  · exact trimmed_trimmed _

theorem directoryOf_subset (path : List Char) : directoryOf path ⊆ components path := by
  unfold directoryOf
  split
  · exact List.nil_subset _
  · exact List.Subset.trans (trimmed_subset _) (List.dropLast_subset _)
  · exact List.Subset.refl _

theorem components_besideOf (hname : IsName name) (path : List Char) :
    components (besideOf path name) = directoryOf path ++ [name] := by
  have hpieces : Text.pieces '/' (besideOf path name) = directoryOf path ++ [name] := by
    refine Text.pieces_joinWith (by simp) ?_
    intro part hpart
    rcases List.mem_append.mp hpart with hdirectory | hlast
    · exact notMem_of_mem_components (directoryOf_subset path hdirectory)
    · rw [List.mem_singleton.mp hlast]
      exact hname.unbroken
  rw [components, hpieces, trimmed_concat hname.heard]

theorem nameOf?_besideOf (hname : IsName name) (path : List Char) :
    nameOf? (besideOf path name) = some name := by
  rw [nameOf?_eq_some_iff, components_besideOf hname]
  exact ⟨List.getLast?_concat, hname⟩

theorem directoryOf_of_nameOf? (h : nameOf? path = some name) :
    directoryOf path = trimmed (components path).dropLast := by
  unfold directoryOf
  split
  · rfl
  · rfl
  · rename_i hnone
    rw [h] at hnone
    cases hnone

theorem directoryOf_besideOf (hname : IsName name) (path : List Char) :
    directoryOf (besideOf path name) = directoryOf path := by
  rw [directoryOf_of_nameOf? (nameOf?_besideOf hname path), components_besideOf hname,
    List.dropLast_concat, trimmed_directoryOf]

/-! ### The name of the image -/

/-- What is written beside a source: a file in the same directory that has another name. -/
structure Beside (source other : String) : Prop where
  directory_eq : directoryOf other.toList = directoryOf source.toList
  named : ∃ name, fileName? other = some name ∧ fileName? source ≠ some name

def outName (name : List Char) (format : String) : List Char :=
  stemOf name ++ "-out.".toList ++ format.toList

theorem outName_ne (name : List Char) (format : String) : outName name format ≠ name := by
  rw [outName, List.append_assoc]
  exact (stem_stemOf name).append_ne (by decide : '-' ≠ '.') _

theorem isName_outName (hname : IsName name) {format : String} (hformat : '/' ∉ format.toList) :
    IsName (outName name format) := by
  have hdash : '-' ∈ outName name format := by simp [outName]
  constructor
  · have hstem : '/' ∉ stemOf name := fun hslash =>
      hname.unbroken ((stem_stemOf name).subset hslash)
    simp [outName, hstem, hformat]
  · -- what says nothing is empty or a dot, and there is a dash in the name
    rw [isSilent, Bool.or_eq_false_iff]
    constructor
    · rw [List.isEmpty_eq_false_iff]
      exact List.ne_nil_of_mem hdash
    · rw [beq_eq_false_iff_ne]
      intro hdot
      rw [hdot] at hdash
      exact absurd hdash (by decide)
  · intro hup
    rw [hup] at hdash
    exact absurd hdash (by decide)

theorem fileName?_ofList (path : List Char) :
    fileName? (String.ofList path) = (nameOf? path).map String.ofList := by
  rw [fileName?, String.toList_ofList]

theorem defaultOutput_of_nameOf? {input : String} (h : nameOf? input.toList = some name)
    (format : String) :
    defaultOutput input format = String.ofList (besideOf input.toList (outName name format)) := by
  rw [defaultOutput, h]
  rfl

theorem beside_defaultOutput {input format : String} (hname : nameOf? input.toList = some name)
    (hformat : '/' ∉ format.toList) : Beside input (defaultOutput input format) := by
  have hout := isName_outName (nameOf?_eq_some_iff.mp hname).2 hformat
  rw [defaultOutput_of_nameOf? hname]
  constructor
  · rw [String.toList_ofList]
    exact directoryOf_besideOf hout input.toList
  · refine ⟨String.ofList (outName name format), ?_, ?_⟩
    · rw [fileName?_ofList, nameOf?_besideOf hout, Option.map_some]
    · rw [fileName?, hname, Option.map_some, ne_eq, Option.some.injEq, String.ofList_inj]
      exact (outName_ne name format).symm

end FilePath

theorem ImageType.slash_notMem_name (format : ImageType) : '/' ∉ format.name.toList := by
  cases format <;> decide

namespace Command

/-- What is written without a destination of its own goes to the default one. -/
theorem eq_defaultOutput_of_mem_written {s : Surroundings} {config : ServiceConfig}
    {input descriptor path : String} {image : Encoded Picture}
    (h : (path, image) ∈ (runProcess s config input descriptor none).written) :
    path = FilePath.defaultOutput input image.format.name := by
  unfold runProcess at h
  split at h
  · cases h
  · split at h
    · cases h
    · cases h
    · dsimp only at h
      split at h
      · obtain ⟨rfl, rfl⟩ := Prod.mk.inj (List.mem_singleton.mp h)
        rfl
      · cases h

/-- The default destination for a path that has a file name, whatever the format, lies in the same
directory and has another name; and a run that is given no destination writes nowhere else. -/
theorem destination_beside_source (input : String) (h : (FilePath.fileName? input).isSome = true) :
    (∀ format : ImageType, FilePath.Beside input (FilePath.defaultOutput input format.name)) ∧
      ∀ (s : Surroundings) (config : ServiceConfig) (descriptor : String),
        ∀ entry ∈ (runProcess s config input descriptor none).written,
          FilePath.Beside input entry.1 := by
  rw [FilePath.fileName?, Option.isSome_map] at h
  obtain ⟨name, hname⟩ := Option.isSome_iff_exists.mp h
  have hbeside (format : ImageType) :
      FilePath.Beside input (FilePath.defaultOutput input format.name) :=
    FilePath.beside_defaultOutput hname format.slash_notMem_name
  refine ⟨hbeside, ?_⟩
  rintro s config descriptor ⟨path, image⟩ hwritten
  rw [eq_defaultOutput_of_mem_written hwritten]
  exact hbeside image.format

/-- A hidden file with two more dots in its name, which looks like an image that was written here
before, in the format that it is written in. -/
theorem destination_beside_source_of_hidden :
    (FilePath.fileName? "shots/./.cover.v2-out.png").isSome = true ∧
      FilePath.defaultOutput "shots/./.cover.v2-out.png" ImageType.png.name
        = "shots/.cover.v2-out-out.png" ∧
      FilePath.Beside "shots/./.cover.v2-out.png" "shots/.cover.v2-out-out.png" := by
  have hname : (FilePath.fileName? "shots/./.cover.v2-out.png").isSome = true := by decide
  have houtput : FilePath.defaultOutput "shots/./.cover.v2-out.png" ImageType.png.name
      = "shots/.cover.v2-out-out.png" := by decide
  have hbeside := (destination_beside_source "shots/./.cover.v2-out.png" hname).1 .png
  rw [houtput] at hbeside
  exact ⟨hname, houtput, hbeside⟩

end Command

end ImagePipeline
