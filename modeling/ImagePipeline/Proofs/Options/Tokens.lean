import ImagePipeline.Pipeline.Choice
import ImagePipeline.Proofs.Text.Numerals
import ImagePipeline.Proofs.Text.Segments
import Mathlib.Logic.Function.Basic

/-!
# Options told in tokens

Options are told by a list of tokens when every token is one of theirs and the tokens left out are
the ones that go without saying (`Options.Tells`). Order does not matter, and a token may stand
twice. Options which are told in this way are the ones that are read (`Spelling.scan_params`), if
what is written for the keys tells options of their kind apart, and taking in a key and its value
changes nothing but what is written for the key.
-/

namespace ImagePipeline

namespace Operation

theorem ne_separator_of_isDigit {c : Char} (h : c.isDigit = true) : c ≠ ',' ∧ c ≠ '/' := by
  constructor <;> (rintro rfl; cases h)

theorem unbroken_decimal (n : Nat) : Unbroken (Text.decimal n) := by
  apply unbroken_of
  intro c hc
  rw [Text.decimal, String.toList_ofList] at hc
  exact ne_separator_of_isDigit (Text.isDigit_of_mem_decimalDigits hc)

theorem unbroken_signedDecimal (i : Int) : Unbroken (Text.signedDecimal i) := by
  apply unbroken_of
  intro c hc
  rcases Text.mem_signedDecimal hc with rfl | hdigit
  · decide
  · exact ne_separator_of_isDigit hdigit

theorem unbroken_toHex (c : Rgb) : Unbroken c.toHex := by
  apply unbroken_of
  intro x hx
  have hdigit := Rgb.mem_toHex hx
  constructor <;> (rintro rfl; cases hdigit)

theorem toList_token (key value : String) :
    (Options.token key value).toList = key.toList ++ '_' :: value.toList := by
  simp [Options.token]

theorem token_ne_empty (key value : String) : Options.token key value ≠ "" := by
  intro h
  have htext := congrArg String.toList h
  simp [toList_token] at htext

theorem Unbroken.token {key value : String} (hkey : Unbroken key) (hvalue : Unbroken value) :
    Unbroken (Options.token key value) := by
  simp only [Unbroken, toList_token, List.mem_append, List.mem_cons, not_or]
  exact ⟨⟨hkey.1, by decide, hvalue.1⟩, hkey.2, by decide, hvalue.2⟩

theorem keyValue?_token {key : String} (h : '_' ∉ key.toList) (value : String) :
    keyValue? (Options.token key value) = some (key, value) := by
  simp [keyValue?, toList_token, Text.cutAt_append_cons h]

theorem token_inj {key key' value value' : String} (hkey : '_' ∉ key.toList)
    (hkey' : '_' ∉ key'.toList) (h : Options.token key value = Options.token key' value') :
    key = key' ∧ value = value' := by
  have hread := congrArg keyValue? h
  rw [keyValue?_token hkey, keyValue?_token hkey', Option.some.injEq, Prod.mk.injEq] at hread
  exact hread

end Operation

namespace Options

theorem number_decimal (operation key : String) (n : UInt32) :
    number operation key (Text.decimal n.toNat) = .ok n := by
  rw [number, Text.uint32?_decimal]
  rfl

theorem colour_toHex (c : Rgb) : colour c.toHex = .ok c := by
  rw [colour, Rgb.ofHex?_toHex]

/-- The tokens tell what all of `full` tell to a reader who takes `usual` for granted. -/
def Tells (tokens full usual : List String) : Prop :=
  tokens ⊆ full ∧ ∀ token ∈ full, token ∈ tokens ∨ token ∈ usual

theorem tells_all (full usual : List String) : Tells full full usual :=
  ⟨List.Subset.refl full, fun _ => .inl⟩

section
variable {α : Type} {take : α → String × String → Except OptionError α}
  {written : α → String → Option String} {o : α}

/-- A key and a value of `o` are taken in, and nothing but the value of the key changes. -/
def Taken (take : α → String × String → Except OptionError α) (written : α → String → Option String)
    (o : α) : Prop :=
  ∀ a key value, written o key = some value →
    ∃ a', take a (key, value) = .ok a' ∧ written a' key = some value ∧
      ∀ other, other ≠ key → written a' other = written a other

theorem scan_taken (htaken : Taken take written o) {pairs : List (String × String)}
    (hpairs : ∀ pair ∈ pairs, written o pair.1 = some pair.2) (a : α) :
    ∃ a', scan take a pairs = .ok a' ∧ ∀ key,
      written a' key = if key ∈ pairs.map Prod.fst then written o key else written a key := by
  induction pairs generalizing a with
  | nil => exact ⟨a, rfl, fun key => by simp⟩
  | cons pair pairs ih =>
    obtain ⟨key, value⟩ := pair
    obtain ⟨hpair, hpairs⟩ := List.forall_mem_cons.mp hpairs
    obtain ⟨a₁, htake, hset, hkept⟩ := htaken a key value hpair
    obtain ⟨a₂, hscan, hwritten⟩ := ih hpairs a₁
    refine ⟨a₂, ?_, ?_⟩
    · rw [scan, htake]
      exact hscan
    · intro other
      rw [hwritten]
      by_cases hsame : other = key
      · subst hsame
        simp [hset, hpair]
      · simp only [hkept other hsame, List.map_cons, List.mem_cons, hsame, false_or]

/-- How a kind of options is written: `written` gives the value of each key that has one. -/
structure Spelling (written : α → String → Option String) (tokens : α → List String) : Prop where
  injective : Function.Injective written
  mem_tokens : ∀ {o t}, t ∈ tokens o ↔ ∃ key value, written o key = some value ∧ t = token key value
  plain_key : ∀ {o key value}, written o key = some value → '_' ∉ key.toList

variable {tokens : α → List String}

theorem Spelling.mem_params (spelling : Spelling written tokens) {options : List String}
    (h : options ⊆ tokens o) {key value : String} :
    (key, value) ∈ options.filterMap Operation.keyValue? ↔
      written o key = some value ∧ token key value ∈ options := by
  rw [List.mem_filterMap]
  constructor
  · rintro ⟨t, ht, hread⟩
    obtain ⟨key', value', hwritten, rfl⟩ := spelling.mem_tokens.mp (h ht)
    rw [Operation.keyValue?_token (spelling.plain_key hwritten)] at hread
    cases hread
    exact ⟨hwritten, ht⟩
  · rintro ⟨hwritten, ht⟩
    exact ⟨_, ht, Operation.keyValue?_token (spelling.plain_key hwritten) value⟩

theorem Spelling.told_or_usual (spelling : Spelling written tokens) {options : List String}
    {start : α} (htells : Tells options (tokens o) (tokens start)) {key value : String}
    (h : written o key = some value) :
    (key, value) ∈ options.filterMap Operation.keyValue? ∨ written start key = some value := by
  have htoken : token key value ∈ tokens o := spelling.mem_tokens.mpr ⟨key, value, h, rfl⟩
  rcases htells.2 _ htoken with htold | husual
  · exact .inl ((spelling.mem_params htells.1).mpr ⟨h, htold⟩)
  · obtain ⟨key', value', husual, hsame⟩ := spelling.mem_tokens.mp husual
    obtain ⟨rfl, rfl⟩ :=
      Operation.token_inj (spelling.plain_key h) (spelling.plain_key husual) hsame
    exact .inr husual

/-- What is told is read, whatever the order of the tokens and whatever is left to be understood. -/
theorem Spelling.scan_params (spelling : Spelling written tokens) (htaken : Taken take written o)
    {options : List String} {start : α} (htells : Tells options (tokens o) (tokens start))
    (hstart : ∀ key, written o key = none → written start key = none) :
    scan take start (options.filterMap Operation.keyValue?) = .ok o := by
  have hpairs : ∀ pair ∈ options.filterMap Operation.keyValue?, written o pair.1 = some pair.2 :=
    fun _ hpair => ((spelling.mem_params htells.1).mp hpair).1
  obtain ⟨read, hscan, hread⟩ := scan_taken htaken hpairs start
  have hsame : read = o := by
    apply spelling.injective
    funext key
    rw [hread]
    split
    · rfl
    · rename_i hunread
      -- a key that no token has is left as it was at the start
      cases hwritten : written o key with
      | none => exact hstart key hwritten
      | some value =>
        rcases spelling.told_or_usual htells hwritten with htold | husual
        · exact absurd (List.mem_map.mpr ⟨_, htold, rfl⟩) hunread
        · exact husual
  rw [hscan, hsame]

end

end Options

end ImagePipeline
