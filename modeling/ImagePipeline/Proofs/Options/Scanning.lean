import ImagePipeline.Proofs.Failures
import ImagePipeline.Proofs.Options.Tokens
import Mathlib.Data.List.Induction

/-!
# What a scan of tokens comes to

Options of a kind are a matter of what is told last for each of their keys (`Options.Tabular`). So a
scan without malformed values gives the options of the table of last values (`Tabular.scan_eq`), a
malformed value ends it with its error (`Tabular.scan_refused`), and tokens of other keys are passed
over (`Tabular.scan_filter`). Together they are the normal form of a reader
(`Tabular.normalForm`).
-/

namespace ImagePipeline.Options

/-! ### The last value of a key -/

section

variable {pairs kept : List (String × String)} {key value : String}

/-- The value that is told last for a key. -/
def lastValue (pairs : List (String × String)) (key : String) : Option String :=
  (pairs.filter fun pair => pair.1 = key).getLast?.map Prod.snd

theorem lastValue_cons (pair : String × String) (pairs : List (String × String)) (key : String) :
    lastValue (pair :: pairs) key
      = (lastValue pairs key).or (if pair.1 = key then some pair.2 else none) := by
  by_cases h : pair.1 = key
  · simp only [lastValue, List.filter_cons, h, decide_true, if_true, List.getLast?_cons]
    cases (pairs.filter fun pair => pair.1 = key).getLast? <;> rfl
  · simp [lastValue, h]

theorem lastValue_concat (pairs : List (String × String)) (key value : String) :
    lastValue (pairs ++ [(key, value)]) = Function.update (lastValue pairs) key (some value) := by
  funext other
  by_cases h : other = key
  · subst h
    simp [lastValue, List.filter_append]
  · rw [Function.update_of_ne h]
    simp [lastValue, List.filter_append, Ne.symm h]

theorem mem_of_lastValue (h : lastValue pairs key = some value) : (key, value) ∈ pairs := by
  obtain ⟨⟨key', value'⟩, hlast, rfl⟩ := Option.map_eq_some_iff.mp h
  have hmem := List.mem_of_getLast? hlast
  rw [List.mem_filter, decide_eq_true_eq] at hmem
  obtain ⟨hmem, rfl⟩ := hmem
  exact hmem

theorem lastValue_eq_none_iff : lastValue pairs key = none ↔ key ∉ pairs.map Prod.fst := by
  simp only [lastValue, Option.map_eq_none_iff, List.getLast?_eq_none_iff, List.filter_eq_nil_iff,
    decide_eq_true_eq, List.mem_map, not_exists, not_and]

theorem lastValue_eq_of_mem_iff
    (h : ∀ value, (key, value) ∈ kept ↔ lastValue pairs key = some value) :
    lastValue kept key = lastValue pairs key := by
  cases hkept : lastValue kept key with
  | some value => exact ((h value).mp (mem_of_lastValue hkept)).symm
  | none =>
    cases hpairs : lastValue pairs key with
    | none => rfl
    | some value =>
      have hmem : key ∈ kept.map Prod.fst := List.mem_map_of_mem ((h value).mpr hpairs)
      exact absurd hmem (lastValue_eq_none_iff.mp hkept)

theorem lastValue_congr {p : String × String → Bool} (hp : ∀ value, p (key, value) = true)
    (h : kept.filter p = pairs.filter p) : lastValue kept key = lastValue pairs key := by
  have hkey (l : List (String × String)) :
      l.filter (fun pair => pair.1 = key) = (l.filter p).filter fun pair => pair.1 = key := by
    rw [List.filter_filter]
    apply List.filter_congr
    rintro ⟨key', value⟩ -
    by_cases hsame : key' = key
    · subst hsame
      simp [hp]
    · simp [hsame]
  rw [lastValue, hkey kept, h, ← hkey pairs, lastValue]

end

/-! ### Scans -/

section

variable {α : Type} {take : α → String × String → Except OptionError α}

theorem scan_cons_ok {a a' : α} {pair : String × String} (h : take a pair = .ok a')
    (pairs : List (String × String)) : scan take a (pair :: pairs) = scan take a' pairs := by
  rw [scan, h]
  rfl

theorem scan_cons_error {a : α} {pair : String × String} {e : OptionError}
    (h : take a pair = .error e) (pairs : List (String × String)) :
    scan take a (pair :: pairs) = .error e := by
  rw [scan, h]
  rfl

theorem scan_append (a : α) (pairs more : List (String × String)) :
    scan take a (pairs ++ more) = scan take a pairs >>= fun a => scan take a more := by
  induction pairs generalizing a with
  | nil => rfl
  | cons pair pairs ih =>
    rw [List.cons_append]
    cases htake : take a pair with
    | error e => rw [scan_cons_error htake, scan_cons_error htake]; rfl
    | ok a' => rw [scan_cons_ok htake, scan_cons_ok htake, ih]

/-- Options are read off a table that holds a value for each of their keys. A pair with a malformed
value is refused whatever has been told before, one with another value of a key replaces what the
table holds for the key, and a pair with any other key is passed over. -/
structure Tabular (take : α → String × String → Except OptionError α) (keys : List String)
    (Malformed : String × String → OptionError → Prop) (told : (String → Option String) → α) :
    Prop where
  refused : ∀ {pair e}, Malformed pair e → ∀ a, take a pair = .error e
  taken : ∀ {key value}, key ∈ keys → (∀ e, ¬ Malformed (key, value) e) → ∀ table,
    take (told table) (key, value) = .ok (told (Function.update table key (some value)))
  passed : ∀ {key}, key ∉ keys → ∀ value a, take a (key, value) = .ok a
  agree : ∀ {table table'}, (∀ key ∈ keys, table key = table' key) → told table = told table'

variable {keys : List String} {Malformed : String × String → OptionError → Prop}
  {told : (String → Option String) → α} {pairs : List (String × String)}

/-- No pair has a malformed value. -/
def Sound (Malformed : String × String → OptionError → Prop) (pairs : List (String × String)) :
    Prop :=
  ∀ pair ∈ pairs, ∀ e, ¬ Malformed pair e

theorem Tabular.scan_eq (h : Tabular take keys Malformed told) (hsound : Sound Malformed pairs) :
    scan take (told fun _ => none) pairs = .ok (told (lastValue pairs)) := by
  -- from the back: the last pair is taken in by the table of those before it
  induction pairs using List.reverseRecOn with
  | nil => rfl
  | append_singleton pairs pair ih =>
    obtain ⟨key, value⟩ := pair
    simp only [Sound, List.forall_mem_append, List.forall_mem_singleton] at hsound
    have htake : take (told (lastValue pairs)) (key, value)
        = .ok (told (lastValue (pairs ++ [(key, value)]))) := by
      rw [lastValue_concat]
      by_cases hkey : key ∈ keys
      · exact h.taken hkey hsound.2 _
      · rw [h.passed hkey]
        refine congrArg Except.ok (h.agree ?_)
        intro other hother
        rw [Function.update_of_ne (ne_of_mem_of_not_mem hother hkey)]
    rw [scan_append, ih hsound.1]
    exact scan_cons_ok htake []

theorem Tabular.sound_of_scan (h : Tabular take keys Malformed told) {a a' : α}
    (hscan : scan take a pairs = .ok a') : Sound Malformed pairs := by
  induction pairs generalizing a with
  | nil => exact List.forall_mem_nil _
  | cons pair pairs ih =>
    obtain ⟨next, htake, hrest⟩ := bind_ok hscan
    refine List.forall_mem_cons.mpr ⟨?_, ih hrest⟩
    intro e hmalformed
    rw [h.refused hmalformed] at htake
    cases htake

theorem Tabular.scan_refused (h : Tabular take keys Malformed told)
    {before after : List (String × String)} {pair : String × String} {e : OptionError}
    (hsound : Sound Malformed before) (hpair : Malformed pair e) :
    scan take (told fun _ => none) (before ++ pair :: after) = .error e := by
  rw [scan_append, h.scan_eq hsound]
  exact scan_cons_error (h.refused hpair _) after

theorem Tabular.scan_filter (h : Tabular take keys Malformed told) (a : α)
    (pairs : List (String × String)) :
    scan take a (pairs.filter fun pair => pair.1 ∈ keys) = scan take a pairs := by
  induction pairs generalizing a with
  | nil => rfl
  | cons pair pairs ih =>
    by_cases hkey : pair.1 ∈ keys
    · simp only [List.filter_cons, hkey, decide_true, if_true, scan, ih]
    · have hpass : take a pair = .ok a := h.passed hkey pair.2 a
      rw [scan_cons_ok hpass, List.filter_cons_of_neg (by simpa using hkey), ih]

end

/-! ### Tokens -/

section

/-- The second list is the first with items of one kind put in, at any places. -/
inductive Inserted {α : Type} (P : α → Prop) : List α → List α → Prop where
  | nil : Inserted P [] []
  | kept {a : α} {l l' : List α} (rest : Inserted P l l') : Inserted P (a :: l) (a :: l')
  | added {a : α} {l l' : List α} (new : P a) (rest : Inserted P l l') : Inserted P l (a :: l')

theorem Inserted.mem {α : Type} {P : α → Prop} {l l' : List α} (h : Inserted P l l') {a : α}
    (ha : a ∈ l') : a ∈ l ∨ P a := by
  induction h with
  | nil => exact .inl ha
  | kept _ ih =>
    rcases List.mem_cons.mp ha with rfl | ha
    · exact .inl List.mem_cons_self
    · exact (ih ha).imp_left (List.mem_cons_of_mem _)
  | added new _ ih =>
    rcases List.mem_cons.mp ha with rfl | ha
    · exact .inr new
    · exact ih ha

theorem Inserted.filter_filterMap {α β : Type} {P : α → Prop} {f : α → Option β} {p : β → Bool}
    (hp : ∀ a, P a → ∀ b, f a = some b → p b = false) {l l' : List α} (h : Inserted P l l') :
    (l'.filterMap f).filter p = (l.filterMap f).filter p := by
  induction h with
  | nil => rfl
  | @kept a _ _ _ ih =>
    cases hf : f a with
    | none => simpa only [List.filterMap_cons_none hf] using ih
    | some b => simp only [List.filterMap_cons_some hf, List.filter_cons, ih]
  | @added a _ _ new _ ih =>
    cases hf : f a with
    | none => simpa only [List.filterMap_cons_none hf] using ih
    | some b =>
      simpa only [List.filterMap_cons_some hf, List.filter_cons, hp a new b hf, Bool.false_eq_true,
        if_false] using ih

/-- The token says nothing of any of the keys: it has no underscore, or nothing before the first
one, or something else than a key. -/
inductive Idle (keys : List String) : String → Prop where
  | bare {t : String} (uncut : '_' ∉ t.toList) : Idle keys t
  | unkeyed (value : String) : Idle keys (token "" value)
  | unrecognised {key : String} (plain : '_' ∉ key.toList) (unknown : key ∉ keys)
      (value : String) : Idle keys (token key value)

variable {keys tokens : List String} {key value : String}
  {Malformed : String × String → OptionError → Prop}

theorem Idle.notMem (hkeys : "" ∉ keys) {t : String} (h : Idle keys t) {pair : String × String}
    (hread : Operation.keyValue? t = some pair) : pair.1 ∉ keys := by
  cases h with
  | bare uncut =>
    rw [Operation.keyValue?, Text.cutAt_of_notMem uncut] at hread
    cases hread
  | unkeyed value =>
    rw [Operation.keyValue?_token (by decide)] at hread
    cases hread
    exact hkeys
  | unrecognised plain unknown value =>
    rw [Operation.keyValue?_token plain] at hread
    cases hread
    exact unknown

/-- The token has a malformed value. -/
def Faulty (Malformed : String × String → OptionError → Prop) (token : String) (e : OptionError) :
    Prop :=
  ∃ pair, Operation.keyValue? token = some pair ∧ Malformed pair e

theorem sound_iff : Sound Malformed (tokens.filterMap Operation.keyValue?) ↔
    ∀ token ∈ tokens, ∀ e, ¬ Faulty Malformed token e := by
  constructor
  · rintro h token htoken e ⟨pair, hread, hmalformed⟩
    exact h pair (List.mem_filterMap.mpr ⟨token, htoken, hread⟩) e hmalformed
  · intro h pair hpair e hmalformed
    obtain ⟨token, htoken, hread⟩ := List.mem_filterMap.mp hpair
    exact h token htoken e ⟨pair, hread, hmalformed⟩

theorem exists_first_fault (h : ∃ token ∈ tokens, ∃ e, Faulty Malformed token e) :
    ∃ before token after e, tokens = before ++ token :: after ∧
      (∀ t ∈ before, ∀ e, ¬ Faulty Malformed t e) ∧ Faulty Malformed token e := by
  classical
  have hsome : (tokens.find? fun token => decide (∃ e, Faulty Malformed token e)).isSome := by
    simpa [List.find?_isSome] using h
  obtain ⟨token, hfirst⟩ := Option.isSome_iff_exists.mp hsome
  obtain ⟨hfault, before, after, hsplit, hbefore⟩ := List.find?_eq_some_iff_append.mp hfirst
  obtain ⟨e, hfault⟩ := of_decide_eq_true hfault
  refine ⟨before, token, after, e, hsplit, ?_, hfault⟩
  intro t ht
  simpa using hbefore t ht

/-- Of the tokens with a recognised key, for each key the last. -/
def lastTokens (keys : List String) : List String → List String
  | [] => []
  | token :: rest =>
    match Operation.keyValue? token with
    | none => lastTokens keys rest
    | some (key, _) =>
      if key ∈ keys ∧ key ∉ (rest.filterMap Operation.keyValue?).map Prod.fst then
        token :: lastTokens keys rest
      else lastTokens keys rest

theorem lastTokens_sublist (keys tokens : List String) :
    (lastTokens keys tokens).Sublist tokens := by
  induction tokens with
  | nil => exact .slnil
  | cons token rest ih =>
    rw [lastTokens]
    split
    · exact ih.cons token
    · split
      · exact ih.cons_cons token
      · exact ih.cons token

theorem mem_lastTokens (hkey : key ∈ keys) :
    (key, value) ∈ (lastTokens keys tokens).filterMap Operation.keyValue? ↔
      lastValue (tokens.filterMap Operation.keyValue?) key = some value := by
  induction tokens with
  | nil => simp [lastTokens, lastValue]
  | cons token rest ih =>
    cases hread : Operation.keyValue? token with
    | none => simp only [lastTokens, hread, List.filterMap_cons_none hread, ih]
    | some pair =>
      obtain ⟨key', value'⟩ := pair
      rw [lastTokens, hread, List.filterMap_cons_some hread, lastValue_cons]
      by_cases hsame : key' = key
      · subst hsame
        by_cases hlater : key' ∈ (rest.filterMap Operation.keyValue?).map Prod.fst
        · -- the value of a later token stands
          obtain ⟨later, hlater'⟩ :=
            Option.ne_none_iff_exists'.mp (mt lastValue_eq_none_iff.mp (not_not.mpr hlater))
          simp only [hkey, hlater, not_true_eq_false, and_false, if_false, ih, hlater',
            Option.some_or]
        · have hnone := lastValue_eq_none_iff.mpr hlater
          simp only [hkey, hlater, not_false_eq_true, and_self, if_true,
            List.filterMap_cons_some hread, List.mem_cons, ih, hnone, Option.none_or,
            Option.some.injEq, Prod.mk.injEq, true_and, reduceCtorEq, or_false,
            eq_comm (a := value)]
      · have hother : (key, value) ≠ (key', value') := by
          intro h
          cases h
          exact hsame rfl
        dsimp only
        rw [if_neg hsame, Option.or_none]
        split
        · simp only [List.filterMap_cons_some hread, List.mem_cons, hother, false_or, ih]
        · exact ih

example : lastTokens ["w", "h"] ["w_1", "bare", "h_5", "_3", "q_1", "w_9"] = ["h_5", "w_9"] := by
  decide

end

/-! ### The normal form -/

/-- How a reader of tokens takes them: the first malformed value is the error, whatever stands
behind it; without one the last token of each key is all that counts, and their order does not; and
tokens that say nothing of a key may stand anywhere. -/
structure NormalForm {α : Type} (parse : Operation → Except OptionError α) (keys : List String)
    (Malformed : String × String → OptionError → Prop) : Prop where
  first_fault : ∀ name tokens, (∃ token ∈ tokens, ∃ e, Faulty Malformed token e) →
    ∃ before token after e, tokens = before ++ token :: after ∧
      (∀ t ∈ before, ∀ e, ¬ Faulty Malformed t e) ∧ Faulty Malformed token e ∧
        parse ⟨name, tokens⟩ = .error e
  last_told : ∀ name tokens kept, (∀ token ∈ tokens, ∀ e, ¬ Faulty Malformed token e) →
    kept.Perm (lastTokens keys tokens) → parse ⟨name, kept⟩ = parse ⟨name, tokens⟩
  idle : ∀ name tokens more, Inserted (Idle keys) tokens more →
    parse ⟨name, more⟩ = parse ⟨name, tokens⟩

theorem Tabular.normalForm {α : Type} {take : α → String × String → Except OptionError α}
    {keys : List String} {Malformed : String × String → OptionError → Prop}
    {told : (String → Option String) → α} (h : Tabular take keys Malformed told)
    (hkeys : "" ∉ keys) (settle : α → Except OptionError α) :
    NormalForm (fun op => scan take (told fun _ => none) op.params >>= settle) keys Malformed := by
  constructor
  case first_fault =>
    intro name tokens hfault
    obtain ⟨before, token, after, e, rfl, hbefore, hfault⟩ := exists_first_fault hfault
    refine ⟨before, token, after, e, rfl, hbefore, hfault, ?_⟩
    obtain ⟨pair, hread, hmalformed⟩ := hfault
    simp only [Operation.params, List.filterMap_append, List.filterMap_cons_some hread]
    rw [h.scan_refused (sound_iff.mpr hbefore) hmalformed]
    rfl
  case last_told =>
    intro name tokens kept hsound hkept
    have hkeptSound : ∀ token ∈ kept, ∀ e, ¬ Faulty Malformed token e := fun token htoken =>
      hsound token ((lastTokens_sublist keys tokens).subset (hkept.mem_iff.mp htoken))
    have hsame : told (lastValue (kept.filterMap Operation.keyValue?))
        = told (lastValue (tokens.filterMap Operation.keyValue?)) := by
      apply h.agree
      intro key hkey
      apply lastValue_eq_of_mem_iff
      intro value
      rw [(hkept.filterMap _).mem_iff, mem_lastTokens hkey]
    simp only [Operation.params]
    rw [h.scan_eq (sound_iff.mpr hsound), h.scan_eq (sound_iff.mpr hkeptSound), hsame]
  case idle =>
    intro name tokens more hmore
    have hsame := hmore.filter_filterMap (f := Operation.keyValue?)
      (p := fun pair => decide (pair.1 ∈ keys))
      fun t ht pair hread => decide_eq_false (ht.notMem hkeys hread)
    simp only [Operation.params]
    rw [← h.scan_filter, hsame, h.scan_filter]

end ImagePipeline.Options
