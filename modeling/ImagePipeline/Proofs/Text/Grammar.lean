import ImagePipeline.Descriptor
import ImagePipeline.Proofs.Failures
import Mathlib.Data.List.Forall2

/-!
# The grammar of descriptors

A descriptor is understood when it is not empty and each of its segments begins with a name; its
segments are then filed by their names, and the segment that is at fault first is the one that an
error names (`Descriptor.parse_grammar`). What is filed (`Descriptor.Files`) is said segment by
segment and grows with each one that is read.
-/

namespace ImagePipeline

/-! ### Rows of pairs -/

/-- What is on the right of a row of pairs has its partner on the left. -/
theorem exists_of_forall₂ {α β : Type} {R : α → β → Prop} {l : List α} {l' : List β}
    (h : List.Forall₂ R l l') {b : β} (hb : b ∈ l') : ∃ a ∈ l, R a b := by
  induction h with
  | nil => cases hb
  | cons hpair _ ih =>
    rcases List.mem_cons.mp hb with rfl | hb
    · exact ⟨_, List.mem_cons_self, hpair⟩
    · obtain ⟨a, ha, hpair⟩ := ih hb
      exact ⟨a, List.mem_cons_of_mem _ ha, hpair⟩

theorem rel_right_unique {α β : Type} {R : α → β → Prop} (hr : Relator.RightUnique R) :
    Relator.RightUnique (Option.Rel R) := by
  rintro _ _ _ (hpair | _) h'
  · cases h' with
    | some hpair' => exact congrArg some (hr hpair hpair')
  · cases h'
    rfl

/-! ### Separators -/

namespace Text

/-- The parts are what stands between the separators of a text. -/
structure Separated (sep : Char) (text : List Char) (parts : List (List Char)) : Prop where
  ne_nil : parts ≠ []
  unbroken : ∀ part ∈ parts, sep ∉ part
  joined : joinWith sep parts = text

theorem separated_iff {sep : Char} {text : List Char} {parts : List (List Char)} :
    Separated sep text parts ↔ parts = pieces sep text := by
  constructor
  · rintro ⟨hne, hunbroken, rfl⟩
    exact (pieces_joinWith hne hunbroken).symm
  · rintro rfl
    exact ⟨pieces_ne_nil sep text, fun _ => notMem_of_mem_pieces, joinWith_pieces sep text⟩

end Text

namespace Descriptor

/-! ### One segment -/

/-- What stands before the first comma of a segment. -/
def segmentName (segment : List Char) : List Char := segment.takeWhile (· != ',')

/-- The segment begins with a name. -/
structure Named (segment : List Char) : Prop where
  ne_nil : segment ≠ []
  no_comma : segment.head? ≠ some ','

/-- A segment without a name, and how an error tells of it: by its number when nothing stands in
it, and otherwise by its text. -/
inductive Offends (index : Nat) (segment : List Char) : ProcessError → Prop where
  | empty (nothing : segment = []) :
      Offends index segment (.param ("empty operation at position " ++ Text.decimal index))
  | unnamed (comma : segment.head? = some ',') :
      Offends index segment
        (.param ("missing operation name in `" ++ String.ofList segment ++ "`"))

/-- The name and the tokens of the operation stand between the commas of the segment, apart from
empty tokens. -/
def Spells (segment : List Char) (op : Operation) : Prop :=
  ∃ tokens, Text.Separated ',' segment (op.name.toList :: tokens) ∧
    op.options.map String.toList = tokens.filter fun token => token ≠ []

variable {index : Nat} {segment : List Char} {segments : List (List Char)} {op : Operation}
  {d : Descriptor} {failure : ProcessError}

theorem Offends.not_named (h : Offends index segment failure) : ¬ Named segment := by
  rintro ⟨hne, hcomma⟩
  cases h with
  | empty nothing => exact hne nothing
  | unnamed comma => exact hcomma comma

theorem Offends.unique {other : ProcessError} (h : Offends index segment failure)
    (h' : Offends index segment other) : failure = other := by
  have hclash (nothing : segment = []) (comma : segment.head? = some ',') : False := by
    rw [nothing] at comma
    cases comma
  cases h with
  | empty nothing =>
    cases h' with
    | empty => rfl
    | unnamed comma => exact (hclash nothing comma).elim
  | unnamed comma =>
    cases h' with
    | empty nothing => exact (hclash nothing comma).elim
    | unnamed => rfl

theorem segmentName_of_pieces {name : List Char} {tokens : List (List Char)}
    (h : Text.pieces ',' segment = name :: tokens) : segmentName segment = name := by
  have hhead := Text.head?_pieces ',' segment
  rw [h] at hhead
  exact (Option.some.inj hhead).symm

theorem segmentName_eq_nil_iff :
    segmentName segment = [] ↔ segment = [] ∨ segment.head? = some ',' := by
  cases segment with
  | nil => simp [segmentName]
  | cons c rest => by_cases hcomma : c = ',' <;> simp [segmentName, hcomma]

theorem named_iff : Named segment ↔ segmentName segment ≠ [] := by
  rw [ne_eq, segmentName_eq_nil_iff, not_or]
  exact ⟨fun h => ⟨h.ne_nil, h.no_comma⟩, fun h => ⟨h.1, h.2⟩⟩

theorem Spells.name (h : Spells segment op) : segmentName segment = op.name.toList := by
  obtain ⟨tokens, hseparated, -⟩ := h
  exact segmentName_of_pieces (Text.separated_iff.mp hseparated).symm

theorem Spells.right_unique : Relator.RightUnique Spells := by
  rintro segment ⟨name, options⟩ ⟨name', options'⟩ ⟨tokens, hseparated, hkept⟩
    ⟨tokens', hseparated', hkept'⟩
  have hsame := (Text.separated_iff.mp hseparated).trans (Text.separated_iff.mp hseparated').symm
  rw [List.cons.injEq] at hsame
  rw [hsame.2, ← hkept'] at hkept
  rw [Operation.mk.injEq]
  exact ⟨String.toList_inj.mp hsame.1,
    List.map_injective_iff.mpr (fun _ _ => String.toList_inj.mp) hkept⟩

theorem readSegment_cases (index : Nat) (segment : List Char) :
    (∃ e, readSegment index segment = .error e ∧ Offends index segment (.ofDescriptor e)) ∨
      Named segment ∧ ∃ op, readSegment index segment = .ok op ∧ Spells segment op := by
  by_cases hempty : segment = []
  · rw [hempty]
    exact .inl ⟨_, rfl, .empty rfl⟩
  obtain ⟨name, tokens, hpieces⟩ := List.exists_cons_of_ne_nil (Text.pieces_ne_nil ',' segment)
  have hname := segmentName_of_pieces hpieces
  simp only [readSegment, List.isEmpty_iff, hempty, if_false, hpieces]
  -- a name that is empty has a comma behind it, as there is something in the segment
  by_cases hnone : name = []
  · have hcomma : segment.head? = some ',' :=
      (segmentName_eq_nil_iff.mp (hname.trans hnone)).resolve_left hempty
    rw [if_pos hnone]
    exact .inl ⟨_, rfl, .unnamed hcomma⟩
  · have hcomma : segment.head? ≠ some ',' := fun hcomma =>
      hnone (hname.symm.trans (segmentName_eq_nil_iff.mpr (.inr hcomma)))
    have hkept : (fun token : List Char => !token.isEmpty) = fun token => decide (token ≠ []) := by
      funext token
      cases token <;> rfl
    rw [if_neg hnone]
    refine .inr ⟨⟨hempty, hcomma⟩, _, rfl, tokens, ?_, ?_⟩
    · rw [String.toList_ofList]
      exact Text.separated_iff.mpr hpieces.symm
    · simp only [List.map_map, Function.comp_def, String.toList_ofList, List.map_id', hkept]

/-! ### Segments in a row -/

/-- The first segment without a name, counted from `index`. -/
def FirstOffence (index : Nat) (segments : List (List Char)) (failure : ProcessError) : Prop :=
  ∃ before segment after, segments = before ++ segment :: after ∧ (∀ s ∈ before, Named s) ∧
    Offends (index + before.length) segment failure

theorem firstOffence_cons :
    FirstOffence index (segment :: segments) failure ↔ Offends index segment failure ∨
      Named segment ∧ FirstOffence (index + 1) segments failure := by
  have hcons := split_cons_iff (P := Named) (Q := fun n s => Offends (index + n) s failure)
    (a := segment) (l := segments)
  simpa only [FirstOffence, Nat.add_zero, Nat.add_assoc, Nat.add_comm 1] using hcons

theorem readSegments_cons_error {e : DescriptorError}
    (h : readSegment index segment = .error e) (d : Descriptor) :
    readSegments index (segment :: segments) d = .error e := by
  rw [readSegments, h]
  rfl

theorem readSegments_cons_ok (h : readSegment index segment = .ok op) (d : Descriptor) :
    readSegments index (segment :: segments) d = readSegments (index + 1) segments (d.add op) := by
  rw [readSegments, h]
  rfl

theorem readSegments_ok_iff :
    (∃ d', readSegments index segments d = .ok d') ↔ ∀ segment ∈ segments, Named segment := by
  induction segments generalizing index d with
  | nil => exact ⟨fun _ => List.forall_mem_nil _, fun _ => ⟨d, rfl⟩⟩
  | cons segment rest ih =>
    rw [List.forall_mem_cons]
    rcases readSegment_cases index segment with ⟨e, hread, hoffends⟩ | ⟨hnamed, op, hread, -⟩
    · simp only [readSegments_cons_error hread, reduceCtorEq, exists_false, hoffends.not_named,
        false_and]
    · rw [readSegments_cons_ok hread, ih, and_iff_right hnamed]

theorem readSegments_error_iff :
    (readSegments index segments d).mapError .ofDescriptor = .error failure ↔
      FirstOffence index segments failure := by
  induction segments generalizing index d with
  | nil =>
    constructor
    · intro h
      cases h
    · rintro ⟨before, segment, after, hsplit, -⟩
      cases before <;> cases hsplit
  | cons segment rest ih =>
    rw [firstOffence_cons]
    rcases readSegment_cases index segment with ⟨e, hread, hoffends⟩ | ⟨hnamed, op, hread, -⟩
    · rw [readSegments_cons_error hread]
      constructor
      · intro h
        cases h
        exact .inl hoffends
      · rintro (hfirst | ⟨hnamed, -⟩)
        · exact congrArg _ (hoffends.unique hfirst)
        · exact absurd hnamed hoffends.not_named
    · have hfirst : ¬ Offends index segment failure := fun h => h.not_named hnamed
      rw [readSegments_cons_ok hread, ih, or_iff_right hfirst, and_iff_right hnamed]

/-! ### What is filed -/

def isOrdinary (segment : List Char) : Bool :=
  segmentName segment ≠ "info".toList ∧ segmentName segment ≠ "format".toList

def isFormat (segment : List Char) : Bool := segmentName segment = "format".toList

/-- The segments are filed by their names. -/
structure Files (segments : List (List Char)) (d : Descriptor) : Prop where
  operations : List.Forall₂ Spells (segments.filter isOrdinary) d.operations
  format : Option.Rel Spells (segments.filter isFormat).getLast? d.format
  info : d.info = true ↔ ∃ segment ∈ segments, segmentName segment = "info".toList

/-- Nothing that is filed tells the two rows of segments apart. -/
structure Alike (segments others : List (List Char)) : Prop where
  ordinary : segments.filter isOrdinary = others.filter isOrdinary
  format : (segments.filter isFormat).getLast? = (others.filter isFormat).getLast?
  info : (∃ segment ∈ segments, segmentName segment = "info".toList) ↔
    ∃ segment ∈ others, segmentName segment = "info".toList

theorem Files.eq_of_alike {others : List (List Char)} {d' : Descriptor} (h : Files segments d)
    (h' : Files others d') (halike : Alike segments others) : d = d' := by
  have hoperations : d.operations = d'.operations :=
    List.right_unique_forall₂' Spells.right_unique (halike.ordinary ▸ h.operations) h'.operations
  have hformat : d.format = d'.format :=
    rel_right_unique Spells.right_unique (halike.format ▸ h.format) h'.format
  have hinfo : d.info = d'.info :=
    Bool.eq_iff_iff.mpr (h.info.trans (halike.info.trans h'.info.symm))
  cases d
  cases d'
  cases hoperations
  cases hformat
  cases hinfo
  rfl

theorem files_nil : Files [] {} := by
  constructor
  · exact .nil
  · exact .none
  · simp

theorem add_eq (d : Descriptor) (op : Operation) :
    d.add op = {
      operations := d.operations ++
        if op.name ≠ "info" ∧ op.name ≠ "format" then [op] else []
      format := if op.name = "format" then some op else d.format
      info := d.info || decide (op.name = "info") } := by
  unfold add
  by_cases hinfo : op.name = "info"
  · simp [hinfo]
  · by_cases hformat : op.name = "format" <;> simp [hinfo, hformat]

theorem Files.concat (h : Files segments d) (hspells : Spells segment op) :
    Files (segments ++ [segment]) (d.add op) := by
  have hname (name : String) : segmentName segment = name.toList ↔ op.name = name := by
    rw [hspells.name]
    exact String.toList_inj
  rw [add_eq]
  constructor
  · rw [List.filter_append, List.filter_singleton]
    refine List.rel_append h.operations ?_
    simp only [isOrdinary, ne_eq, hname, Bool.cond_decide]
    split
    · exact .cons hspells .nil
    · exact .nil
  · rw [List.filter_append, List.filter_singleton]
    simp only [isFormat, hname, Bool.cond_decide]
    split
    · rw [List.getLast?_concat]
      exact .some hspells
    · rw [List.append_nil]
      exact h.format
  · simp only [Bool.or_eq_true, decide_eq_true_eq, h.info, ← hname, List.mem_append,
      List.mem_singleton, or_and_right, exists_or, exists_eq_left]

theorem readSegments_files {done : List (List Char)} {start : Descriptor}
    (h : readSegments index segments start = .ok d) (hstart : Files done start) :
    Files (done ++ segments) d := by
  -- what has been filed so far is the invariant; a segment that is read joins it
  induction segments generalizing index done start with
  | nil =>
    cases h
    rwa [List.append_nil]
  | cons segment rest ih =>
    rcases readSegment_cases index segment with ⟨e, hread, -⟩ | ⟨-, op, hread, hspells⟩
    · rw [readSegments_cons_error hread] at h
      cases h
    · rw [readSegments_cons_ok hread] at h
      rw [List.append_cons]
      exact ih h (hstart.concat hspells)

/-! ### Descriptors -/

section

variable {text : String}

theorem parse_of_ne (h : text ≠ "") :
    parse text = readSegments 0 (Text.pieces '/' text.toList) {} := by
  rw [parse, if_neg (mt String.isEmpty_iff.mp h)]

theorem parse_ok_iff : (∃ d, parse text = .ok d) ↔
    text ≠ "" ∧ ∀ segment ∈ Text.pieces '/' text.toList, Named segment := by
  by_cases hempty : text = ""
  · subst hempty
    constructor
    · rintro ⟨d, h⟩
      cases h
    · rintro ⟨hne, -⟩
      exact absurd rfl hne
  · rw [parse_of_ne hempty, readSegments_ok_iff]
    exact (and_iff_right hempty).symm

theorem parse_error_iff : (parse text).mapError .ofDescriptor = .error failure ↔
    text = "" ∧ failure = .param "Missing required param: x-oss-process" ∨
      text ≠ "" ∧ FirstOffence 0 (Text.pieces '/' text.toList) failure := by
  by_cases hempty : text = ""
  · subst hempty
    simp only [true_and, ne_eq, not_true_eq_false, false_and, or_false]
    constructor
    · intro h
      cases h
      rfl
    · rintro rfl
      rfl
  · rw [parse_of_ne hempty, readSegments_error_iff]
    simp only [hempty, ne_eq, not_false_eq_true, false_and, true_and, false_or]

theorem parse_files (h : parse text = .ok d) : Files (Text.pieces '/' text.toList) d := by
  have hempty : text ≠ "" := (parse_ok_iff.mp ⟨d, h⟩).1
  rw [parse_of_ne hempty] at h
  exact readSegments_files h files_nil

/-- Segments with names make a descriptor, in which they are filed. -/
theorem parse_of_named (hsome : segments ≠ []) (hnamed : ∀ s ∈ segments, Named s)
    (hslash : ∀ s ∈ segments, '/' ∉ s) :
    ∃ d, parse (String.ofList (Text.joinWith '/' segments)) = .ok d ∧ Files segments d := by
  let text := String.ofList (Text.joinWith '/' segments)
  have hpieces : Text.pieces '/' text.toList = segments := by
    rw [String.toList_ofList]
    exact Text.pieces_joinWith hsome hslash
  have htext : text ≠ "" := by
    intro hempty
    rw [hempty] at hpieces
    exact (hnamed [] (hpieces ▸ List.mem_singleton_self [])).ne_nil rfl
  obtain ⟨d, hparse⟩ : ∃ d, parse text = .ok d := parse_ok_iff.mpr ⟨htext, hpieces.symm ▸ hnamed⟩
  exact ⟨d, hparse, hpieces ▸ parse_files hparse⟩

theorem parse_joinWith (h : parse text = .ok d) (hsome : segments ≠ [])
    (hfrom : segments ⊆ Text.pieces '/' text.toList)
    (hsame : segments.filter isOrdinary = (Text.pieces '/' text.toList).filter isOrdinary) :
    ∃ d', parse (String.ofList (Text.joinWith '/' segments)) = .ok d' ∧
      d'.operations = d.operations := by
  have hnamed : ∀ s ∈ segments, Named s := fun s hs => (parse_ok_iff.mp ⟨d, h⟩).2 s (hfrom hs)
  obtain ⟨d', hparse, hfiles⟩ :=
    parse_of_named hsome hnamed fun s hs => Text.notMem_of_mem_pieces (hfrom hs)
  have hoperations := hfiles.operations
  rw [hsame] at hoperations
  exact ⟨d', hparse,
    List.right_unique_forall₂' Spells.right_unique hoperations (parse_files h).operations⟩

end

/-- A descriptor is understood exactly when it is not empty and each of its segments begins with a
name. Its ordinary operations are then those of the segments that are neither `info` nor `format`,
in their order, the format is that of the last `format`, and `info` is asked for by any segment of
that name. What else is moved, left out or said twice never changes the ordinary operations. An
error names the first segment without a name. -/
theorem parse_grammar (text : String) :
    ∃ segments, Text.Separated '/' text.toList segments ∧
      ((∃ d, parse text = .ok d) ↔ text ≠ "" ∧ ∀ segment ∈ segments, Named segment) ∧
      (∀ d, parse text = .ok d → Files segments d ∧
        ∀ others, others ≠ [] → others ⊆ segments →
          others.filter isOrdinary = segments.filter isOrdinary →
            ∃ d', parse (String.ofList (Text.joinWith '/' others)) = .ok d' ∧
              d'.operations = d.operations) ∧
      ∀ failure, (parse text).mapError .ofDescriptor = .error failure ↔
        text = "" ∧ failure = .param "Missing required param: x-oss-process" ∨
          text ≠ "" ∧ FirstOffence 0 segments failure := by
  refine ⟨Text.pieces '/' text.toList, Text.separated_iff.mpr rfl, parse_ok_iff, ?_,
    fun _ => parse_error_iff⟩
  intro d hparse
  exact ⟨parse_files hparse, fun _ hsome hfrom hsame => parse_joinWith hparse hsome hfrom hsame⟩

/-- The first format and the empty tokens are gone; the flag has no place among the operations. -/
example : parse "format,png/resize,,w_10,/info/format,webp/blur"
    = .ok ⟨[⟨"resize", ["w_10"]⟩, ⟨"blur", []⟩], some ⟨"format", ["webp"]⟩, true⟩ := by rfl

end Descriptor

end ImagePipeline
