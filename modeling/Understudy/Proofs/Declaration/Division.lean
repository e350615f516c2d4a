import Mathlib.Data.List.Infix
import Understudy.Proofs.Declaration.QualifiedName

/-! # Where a qualified name is divided

A qualified name is divided at the last pair of colons outside angle brackets. So a name that was
put after its scope comes off again exactly when the angle brackets of the scope are closed and the
name shows no such pair itself. The scope is split at every pair of colons, brackets or not.
-/

namespace Understudy

namespace Text

variable {first second part text : List Char} {parts : List (List Char)} {c : Char}

/-- Marks that pair up: read from the front, none is closed that is not open, and in the end all are
closed. -/
structure PairsUp (opening closing : Char) (text : List Char) : Prop where
  closed_le : ∀ before, before <+: text → before.count closing ≤ before.count opening
  closed_eq : text.count closing = text.count opening

instance (opening closing : Char) (text : List Char) : Decidable (PairsUp opening closing text) :=
  decidable_of_iff
    ((∀ before ∈ text.inits, before.count closing ≤ before.count opening) ∧
      text.count closing = text.count opening)
    ⟨fun h => ⟨fun before hbefore => h.1 before ((List.mem_inits before text).mpr hbefore), h.2⟩,
      fun h => ⟨fun before hbefore => h.closed_le before ((List.mem_inits before text).mp hbefore),
        h.closed_eq⟩⟩

/-! ## Splitting -/

/-- Whether a text shows two colons. -/
def ShowsColons (text : List Char) : Prop := [':', ':'] <:+: text

instance : DecidablePred ShowsColons := fun text =>
  inferInstanceAs (Decidable ([':', ':'] <:+: text))

/-- Where no pair of colons starts, the first character stays with the first part. -/
theorem splitColons_cons (h : ¬ [':', ':'] <+: c :: text) (hparts : splitColons text = part :: parts) :
    splitColons (c :: text) = (c :: part) :: parts := by
  rw [splitColons]
  · rw [hparts]
  · rintro rest rfl rfl
    exact h ⟨rest, rfl⟩

/-- What does not end in a colon is split apart from what follows the next two. -/
theorem splitColons_append (h : first.getLast? ≠ some ':') :
    splitColons (first ++ ':' :: ':' :: second) = splitColons first ++ splitColons second := by
  induction first using splitColons.induct with
  | case1 => rfl
  | case2 rest ih =>
      have hrest : rest.getLast? ≠ some ':' := by
        intro hlast
        apply h
        rw [List.getLast?_cons_cons, List.getLast?_cons, hlast, Option.getD_some]
      rw [splitColons, List.cons_append, List.cons_append, splitColons, ih hrest, List.cons_append]
  | case3 c rest _ hnil => exact absurd hnil (splitColons_ne_nil rest)
  | case4 c rest hpair part parts hrest ih =>
      have hlast : rest.getLast? ≠ some ':' := by
        intro hlast
        apply h
        rw [List.getLast?_cons, hlast, Option.getD_some]
      have hstart : ¬ [':', ':'] <+: c :: rest := by
        rintro ⟨after, hafter⟩
        cases hafter
        exact hpair after rfl rfl
      have hlonger : ¬ [':', ':'] <+: c :: (rest ++ ':' :: ':' :: second) := by
        rintro ⟨after, hafter⟩
        cases rest with
        | nil =>
            cases hafter
            exact h rfl
        | cons d rest =>
            cases hafter
            exact hpair rest rfl rfl
      have htail := ih hlast
      rw [hrest, List.cons_append] at htail
      rw [List.cons_append, splitColons_cons hlonger htail, splitColons_cons hstart hrest,
        List.cons_append]

/-- A text is in one piece exactly when it shows no two colons. -/
theorem splitColons_eq_singleton_iff : splitColons text = [text] ↔ ¬ ShowsColons text := by
  induction text using splitColons.induct with
  | case1 => exact iff_of_true rfl (by decide)
  | case2 rest _ =>
      apply iff_of_false
      · intro hsingle
        rw [splitColons, List.cons.injEq] at hsingle
        cases hsingle.1
      · exact not_not_intro ⟨[], rest, rfl⟩
  | case3 c rest _ hnil => exact absurd hnil (splitColons_ne_nil rest)
  | case4 c rest hpair part parts hrest ih =>
      have hstart : ¬ [':', ':'] <+: c :: rest := by
        rintro ⟨after, hafter⟩
        cases hafter
        exact hpair after rfl rfl
      rw [splitColons_cons hstart hrest, ShowsColons, List.infix_cons_iff, not_or,
        and_iff_right hstart, ← ShowsColons, ← ih, hrest]
      simp

/-- Parts that end in no colon are split where they were joined, and where they show two colons. -/
theorem splitColons_intercalate (hne : parts ≠ [])
    (h : ∀ part ∈ parts, part.getLast? ≠ some ':') :
    splitColons ([':', ':'].intercalate parts) = parts.flatMap splitColons := by
  induction parts with
  | nil => exact absurd rfl hne
  | cons part parts ih =>
      obtain ⟨hpart, hparts⟩ := List.forall_mem_cons.mp h
      by_cases hlast : parts = []
      · rw [hlast, List.intercalate_singleton, List.flatMap_singleton]
      · rw [List.intercalate_cons_of_ne_nil hlast, List.append_assoc, List.flatMap_cons,
          ← ih hlast hparts]
        exact splitColons_append hpart

/-- Every part gives a piece, so that the pieces are the parts when each gives one. -/
theorem flatMap_splitColons_eq_iff :
    parts.flatMap splitColons = parts ↔ ∀ part ∈ parts, ¬ ShowsColons part := by
  have hlength (parts : List (List Char)) : parts.length ≤ (parts.flatMap splitColons).length := by
    induction parts with
    | nil => exact Nat.le_refl _
    | cons part parts ih =>
        have hpiece := List.length_pos_iff.mpr (splitColons_ne_nil part)
        rw [List.flatMap_cons, List.length_append, List.length_cons]
        omega
  induction parts with
  | nil => simp
  | cons part parts ih =>
      rw [List.forall_mem_cons, ← splitColons_eq_singleton_iff, List.flatMap_cons]
      constructor
      · intro h
        have hall := congrArg List.length h
        rw [List.length_append, List.length_cons] at hall
        have hpiece := List.length_pos_iff.mpr (splitColons_ne_nil part)
        have hrest := hlength parts
        obtain ⟨hpart, hparts⟩ := List.append_inj (h.trans List.singleton_append.symm)
          (by rw [List.length_singleton]; omega)
        exact ⟨hpart, ih.mp hparts⟩
      · intro ⟨hpart, hparts⟩
        rw [hpart, ih.mpr hparts, List.singleton_append]

/-- A text that has no `c` ends before the first `c` does. -/
theorem exists_append_of_notMem (hc : c ∉ first) (h : first ++ second = part ++ c :: text) :
    ∃ middle, part = first ++ middle ∧ second = middle ++ c :: text := by
  rcases List.append_eq_append_iff.mp h with ⟨middle, hpart, hsecond⟩ | ⟨middle, hfirst, hsecond⟩
  · exact ⟨middle, hpart, hsecond⟩
  · cases middle with
    | nil => exact ⟨[], by simpa using hfirst.symm, by simpa using hsecond.symm⟩
    | cons d middle =>
        cases hsecond
        exact absurd (hfirst ▸ List.mem_append_right part List.mem_cons_self) hc

/-- Two pairs of colons in one text are the same pair, or share a colon, or are apart. -/
theorem eq_or_later_of_colons {middle : List Char}
    (h : ':' :: ':' :: second = middle ++ ':' :: ':' :: text) :
    second = text ∨ ∃ front, front <:+ middle ∧
      (second = front ++ ':' :: text ∨ second = front ++ ':' :: ':' :: text) := by
  cases middle with
  | nil =>
      cases h
      exact .inl rfl
  | cons c middle =>
      cases middle with
      | nil =>
          cases h
          exact .inr ⟨[], List.nil_suffix, .inl rfl⟩
      | cons d middle =>
          cases h
          exact .inr ⟨middle, ⟨[':', ':'], rfl⟩, .inr rfl⟩

theorem intercalate_ne_nil (hpart : part ≠ []) : [':', ':'].intercalate (part :: parts) ≠ [] := by
  cases parts with
  | nil => rwa [List.intercalate_singleton]
  | cons next parts =>
      rw [List.intercalate_cons_cons, List.append_assoc]
      exact List.append_ne_nil_of_left_ne_nil hpart _

theorem intercalate_concat (hne : parts ≠ []) (last : List Char) :
    [':', ':'].intercalate (parts ++ [last]) =
      [':', ':'].intercalate parts ++ ':' :: ':' :: last := by
  induction parts with
  | nil => exact absurd rfl hne
  | cons part parts ih =>
      by_cases hparts : parts = []
      · rw [hparts, List.singleton_append, List.intercalate_cons_cons, List.intercalate_singleton,
          List.intercalate_singleton, List.append_assoc]
        rfl
      · rw [List.cons_append, List.intercalate_cons_of_ne_nil (List.append_ne_nil_of_left_ne_nil hparts _),
          ih hparts, List.intercalate_cons_of_ne_nil hparts]
        simp only [List.append_assoc]

end Text

namespace NameParts

variable {depth : Nat} {text scope name rest before : List Char} {parts : NameParts} {c d : Char}

/-- How many angle brackets are open after a character. One that closes nothing is passed over. -/
def deepen (depth : Nat) (c : Char) : Nat :=
  if c = '<' then depth + 1 else if c = '>' then depth - 1 else depth

/-- How many angle brackets are open after a text. -/
def openAfter (depth : Nat) (text : List Char) : Nat := text.foldl deepen depth

theorem openAfter_append (depth : Nat) (first second : List Char) :
    openAfter depth (first ++ second) = openAfter (openAfter depth first) second :=
  List.foldl_append

/-- Whether a text shows two colons outside of angle brackets. -/
def ShowsDivision (depth : Nat) (text : List Char) : Prop :=
  ∃ before after, text = before ++ ':' :: ':' :: after ∧ openAfter depth before = 0

theorem divide?_cons (depth : Nat) (c : Char) (rest : List Char) :
    divide? depth (c :: rest) =
      match divide? (deepen depth c) rest with
      | some parts => some { parts with scope := c :: parts.scope }
      | none =>
        if c = ':' ∧ depth = 0 then
          (Text.dropStart? [':'] rest).map fun name => { scope := [], name }
        else none := by
  rw [divide?]
  rfl

/-- A name is divided at its start when two colons stand there and no later ones do. -/
theorem divide?_cons_eq_nil_iff :
    divide? depth (c :: rest) = some { scope := [], name } ↔
      c = ':' ∧ rest = ':' :: name ∧ depth = 0 ∧ divide? 0 rest = none := by
  rw [divide?_cons]
  constructor
  · intro h
    cases hlater : divide? (deepen depth c) rest with
    | some later =>
        rw [hlater] at h
        cases h
    | none =>
        rw [hlater] at h
        dsimp only at h
        split at h
        next hcolon =>
            obtain ⟨rfl, rfl⟩ := hcolon
            obtain ⟨found, hfound, hparts⟩ := Option.map_eq_some_iff.mp h
            cases hparts
            exact ⟨rfl, Text.dropStart?_eq_some_iff.mp hfound, rfl, hlater⟩
        next => cases h
  · rintro ⟨rfl, rfl, rfl, hlater⟩
    have hnone : divide? (deepen 0 ':') (':' :: name) = none := hlater
    rw [hnone]
    rfl

/-- Further on, a name is divided where the rest of it is. -/
theorem divide?_cons_eq_cons_iff :
    divide? depth (c :: rest) = some { scope := d :: scope, name } ↔
      c = d ∧ divide? (deepen depth c) rest = some { scope, name } := by
  rw [divide?_cons]
  cases divide? (deepen depth c) rest with
  | some later =>
      obtain ⟨laterScope, laterName⟩ := later
      simp [and_assoc]
  | none =>
      dsimp only
      split <;> simp

/-- A name is divided at a pair of colons outside of angle brackets that no other one follows. -/
theorem divide?_eq_some_iff :
    divide? depth text = some { scope, name } ↔
      text = scope ++ ':' :: ':' :: name ∧ openAfter depth scope = 0 ∧
        divide? 0 (':' :: name) = none := by
  induction text generalizing depth scope with
  | nil => simp [divide?]
  | cons c rest ih =>
      cases scope with
      | nil =>
          rw [divide?_cons_eq_nil_iff]
          constructor
          · rintro ⟨rfl, rfl, hdepth, hlast⟩
            exact ⟨rfl, hdepth, hlast⟩
          · rintro ⟨htext, hdepth, hlast⟩
            cases htext
            exact ⟨rfl, rfl, hdepth, hlast⟩
      | cons d scope =>
          rw [divide?_cons_eq_cons_iff, ih]
          constructor
          · rintro ⟨rfl, rfl, hopen, hlast⟩
            exact ⟨rfl, hopen, hlast⟩
          · rintro ⟨htext, hopen, hlast⟩
            cases htext
            exact ⟨rfl, rfl, hopen, hlast⟩

/-- A pair of colons outside of angle brackets divides a name, there or further on. -/
theorem divide?_ne_none (h : ShowsDivision depth text) : divide? depth text ≠ none := by
  obtain ⟨before, after, rfl, hopen⟩ := h
  induction before generalizing depth with
  | nil =>
      have hdepth : depth = 0 := hopen
      subst hdepth
      intro hnone
      cases hlater : divide? 0 (':' :: after) with
      | none =>
          have hfound := divide?_cons_eq_nil_iff.mpr ⟨rfl, rfl, rfl, hlater⟩
          rw [List.nil_append, hfound] at hnone
          cases hnone
      | some later =>
          obtain ⟨scope, name⟩ := later
          have hfound : divide? 0 (':' :: ':' :: after) = some { scope := ':' :: scope, name } :=
            divide?_cons_eq_cons_iff.mpr ⟨rfl, hlater⟩
          rw [List.nil_append, hfound] at hnone
          cases hnone
  | cons c before ih =>
      intro hnone
      cases hlater : divide? (deepen depth c) (before ++ ':' :: ':' :: after) with
      | none => exact ih hopen hlater
      | some later =>
          obtain ⟨scope, name⟩ := later
          have hfound := divide?_cons_eq_cons_iff.mpr ⟨rfl, hlater⟩
          rw [List.cons_append, hfound] at hnone
          cases hnone

theorem divide?_eq_none_iff : divide? depth text = none ↔ ¬ ShowsDivision depth text := by
  refine ⟨fun hnone hshows => divide?_ne_none hshows hnone, fun hshows => ?_⟩
  cases hdivide : divide? depth text with
  | none => rfl
  | some parts =>
      obtain ⟨scope, name⟩ := parts
      obtain ⟨htext, hopen, -⟩ := divide?_eq_some_iff.mp hdivide
      exact absurd ⟨scope, name, htext, hopen⟩ hshows

instance (depth : Nat) (text : List Char) : Decidable (ShowsDivision depth text) :=
  decidable_of_iff (¬ divide? depth text = none) (by rw [divide?_eq_none_iff, not_not])

/-! ## Names put after a scope -/

theorem openAfter_of_notMem (hopening : '<' ∉ text) (hclosing : '>' ∉ text) :
    openAfter depth text = depth := by
  induction text generalizing depth with
  | nil => rfl
  | cons c rest ih =>
      obtain ⟨hc, hrest⟩ := not_or.mp (mt List.mem_cons.mpr hopening)
      obtain ⟨hc', hrest'⟩ := not_or.mp (mt List.mem_cons.mpr hclosing)
      have hdepth : deepen depth c = depth := by
        rw [deepen, if_neg (Ne.symm hc), if_neg (Ne.symm hc')]
      rw [← List.singleton_append, openAfter_append, ih hrest hrest']
      exact hdepth

/-- Where no angle bracket is closed that is not open, the open ones are counted. -/
theorem openAfter_add_count
    (h : ∀ before, before <+: text → before.count '>' ≤ depth + before.count '<') :
    openAfter depth text + text.count '>' = depth + text.count '<' := by
  have hcount (x c : Char) (tail : List Char) : (c :: tail).count x = [c].count x + tail.count x := by
    rw [← List.count_append, List.singleton_append]
  induction text generalizing depth with
  | nil => rfl
  | cons c rest ih =>
      have hfirst := h [c] ⟨rest, rfl⟩
      have hstep : deepen depth c + [c].count '>' = depth + [c].count '<' := by
        unfold deepen
        split
        next hopening => simp [hopening]
        next hopening =>
          split
          next hclosing =>
            rw [hclosing] at hfirst ⊢
            simp at hfirst ⊢
            omega
          next hclosing => simp [hopening, hclosing]
      have htail : openAfter (deepen depth c) rest + rest.count '>' =
          deepen depth c + rest.count '<' := by
        apply ih
        intro before hbefore
        have hlonger := h (c :: before) (List.cons_prefix_cons.mpr ⟨rfl, hbefore⟩)
        rw [hcount, hcount '<'] at hlonger
        omega
      rw [← List.singleton_append, openAfter_append, List.singleton_append, hcount, hcount '<']
      change openAfter (deepen depth c) rest + _ = _
      omega

/-- Angle brackets that pair up leave as many open as before. -/
theorem openAfter_of_pairsUp (h : Text.PairsUp '<' '>' text) : openAfter depth text = depth := by
  have hcount : openAfter depth text + text.count '>' = depth + text.count '<' :=
    openAfter_add_count fun before hbefore =>
      (h.closed_le before hbefore).trans (Nat.le_add_left _ _)
  have hclosed := h.closed_eq
  omega

/-- Scopes that each close their angle brackets do so when they are joined. -/
theorem openAfter_intercalate {scopes : List (List Char)}
    (h : ∀ scope ∈ scopes, openAfter 0 scope = 0) :
    openAfter 0 ([':', ':'].intercalate scopes) = 0 := by
  induction scopes with
  | nil => rfl
  | cons scope scopes ih =>
      obtain ⟨hscope, hscopes⟩ := List.forall_mem_cons.mp h
      by_cases hlast : scopes = []
      · rwa [hlast, List.intercalate_singleton]
      · rw [List.intercalate_cons_of_ne_nil hlast, openAfter_append, openAfter_append, hscope]
        exact ih hscopes

/-- Where a text starts with neither colons nor angle brackets, it is divided further on. -/
theorem showsDivision_append_iff {start : List Char} (hcolon : ':' ∉ start) (hopening : '<' ∉ start)
    (hclosing : '>' ∉ start) : ShowsDivision depth (start ++ text) ↔ ShowsDivision depth text := by
  have hopen (middle : List Char) : openAfter depth (start ++ middle) = openAfter depth middle := by
    rw [openAfter_append, openAfter_of_notMem hopening hclosing]
  constructor
  · intro ⟨before, after, htext, hbefore⟩
    obtain ⟨middle, rfl, hmiddle⟩ := Text.exists_append_of_notMem hcolon htext
    exact ⟨middle, after, hmiddle, hopen middle ▸ hbefore⟩
  · intro ⟨before, after, htext, hbefore⟩
    exact ⟨start ++ before, after, by rw [htext, List.append_assoc], (hopen before).trans hbefore⟩

theorem not_showsDivision_of_notMem (h : ':' ∉ text) : ¬ ShowsDivision depth text := by
  rintro ⟨before, after, rfl, -⟩
  exact h (List.mem_append_right before List.mem_cons_self)

/-- A colon in front of a name makes a pair only with one that the name starts with. -/
theorem showsDivision_colon_cons_iff (hhead : name.head? ≠ some ':') :
    ShowsDivision 0 (':' :: name) ↔ ShowsDivision 0 name := by
  constructor
  · rintro ⟨before, after, htext, hopen⟩
    cases before with
    | nil =>
        cases htext
        exact absurd rfl hhead
    | cons c before =>
        cases htext
        exact ⟨before, after, rfl, hopen⟩
  · rintro ⟨before, after, rfl, hopen⟩
    exact ⟨':' :: before, after, rfl, hopen⟩

theorem ofQualified_joined {scopes : List (List Char)} (hhead : name.head? ≠ some ':')
    (hopen : openAfter 0 ([':', ':'].intercalate scopes) = 0) (hname : ¬ ShowsDivision 0 name) :
    ofQualified ([':', ':'].intercalate (scopes ++ [name])) =
      { scope := [':', ':'].intercalate scopes, name } := by
  rw [ofQualified]
  by_cases hscopes : scopes = []
  · rw [hscopes, List.nil_append, List.intercalate_singleton, divide?_eq_none_iff.mpr hname]
    rfl
  · have hlast : divide? 0 (':' :: name) = none :=
      divide?_eq_none_iff.mpr (mt (showsDivision_colon_cons_iff hhead).mp hname)
    rw [Text.intercalate_concat hscopes, divide?_eq_some_iff.mpr ⟨rfl, hopen, hlast⟩]
    rfl

/-- Behind scopes that close their angle brackets a name is divided as it is on its own. -/
theorem name_ofQualified_joined {scopes : List (List Char)} (hhead : name.head? ≠ some ':')
    (hopen : openAfter 0 ([':', ':'].intercalate scopes) = 0) :
    (ofQualified ([':', ':'].intercalate (scopes ++ [name]))).name = (ofQualified name).name := by
  cases hdivide : divide? 0 name with
  | none =>
      rw [ofQualified_joined hhead hopen (divide?_eq_none_iff.mp hdivide), ofQualified, hdivide]
      rfl
  | some parts =>
      obtain ⟨scope, last⟩ := parts
      by_cases hscopes : scopes = []
      · rw [hscopes, List.nil_append, List.intercalate_singleton]
      · obtain ⟨rfl, hclosed, hlast⟩ := divide?_eq_some_iff.mp hdivide
        have hwhole : divide? 0 ([':', ':'].intercalate (scopes ++ [scope ++ ':' :: ':' :: last])) =
            some { scope := [':', ':'].intercalate scopes ++ ':' :: ':' :: scope, name := last } := by
          refine divide?_eq_some_iff.mpr ⟨?_, ?_, hlast⟩
          · rw [Text.intercalate_concat hscopes]
            simp only [List.append_assoc, List.cons_append]
          · rw [openAfter_append, hopen]
            exact hclosed
        rw [ofQualified, ofQualified, hwhole, hdivide]
        rfl

/-- A name that was put after its scopes comes off again exactly when their angle brackets close and
the name shows no two colons outside of its own. -/
theorem name_ofQualified_joined_iff {scopes : List (List Char)} (hhead : name.head? ≠ some ':') :
    (ofQualified ([':', ':'].intercalate (scopes ++ [name]))).name = name ↔
      openAfter 0 ([':', ':'].intercalate scopes) = 0 ∧ ¬ ShowsDivision 0 name := by
  refine ⟨fun h => ?_, fun h => by rw [ofQualified_joined hhead h.1 h.2]⟩
  rw [ofQualified] at h
  by_cases hscopes : scopes = []
  · rw [hscopes, List.nil_append, List.intercalate_singleton] at h
    refine ⟨by rw [hscopes]; rfl, divide?_eq_none_iff.mp ?_⟩
    cases hdivide : divide? 0 name with
    | none => rfl
    | some parts =>
        -- What comes off is shorter than the whole.
        have hlength := congrArg List.length (eq_of_divide? hdivide)
        rw [hdivide] at h
        rw [List.length_append, List.length_cons, List.length_cons, ← h] at hlength
        simp only [Option.getD_some] at hlength
        omega
  · rw [Text.intercalate_concat hscopes] at h
    cases hdivide : divide? 0 ([':', ':'].intercalate scopes ++ ':' :: ':' :: name) with
    | none =>
        rw [hdivide] at h
        have hlength := congrArg List.length h
        simp at hlength
        omega
    | some parts =>
        obtain ⟨scope, last⟩ := parts
        rw [hdivide] at h
        have hwhole : last = name := h
        subst hwhole
        obtain ⟨htext, hopen, hlast⟩ := divide?_eq_some_iff.mp hdivide
        rw [List.append_cancel_right htext]
        refine ⟨hopen, ?_⟩
        rwa [divide?_eq_none_iff, showsDivision_colon_cons_iff hhead] at hlast

/-- What comes off is the name that was put on, or starts after a colon of the name, or before the
colons that follow the scopes. -/
theorem name_ofQualified_cases (scopes : List (List Char)) (name : List Char) :
    let last := (ofQualified ([':', ':'].intercalate (scopes ++ [name]))).name
    last = name ∨ (∃ front, name = front ++ ':' :: last) ∨
      ∃ part, part <:+ [':', ':'].intercalate scopes ∧ ∃ back, last = part ++ ':' :: back := by
  rw [ofQualified]
  by_cases hscopes : scopes = []
  · rw [hscopes, List.nil_append, List.intercalate_singleton]
    cases hdivide : divide? 0 name with
    | none => exact .inl rfl
    | some parts =>
        refine .inr (.inl ⟨parts.scope ++ [':'], ?_⟩)
        rw [List.append_assoc]
        exact eq_of_divide? hdivide
  · rw [Text.intercalate_concat hscopes]
    generalize [':', ':'].intercalate scopes = joined
    cases hdivide : divide? 0 (joined ++ ':' :: ':' :: name) with
    | none => exact .inr (.inr ⟨joined, List.suffix_rfl, ':' :: name, rfl⟩)
    | some parts =>
        obtain ⟨scope, last⟩ := parts
        -- Where the text was divided, seen from where it was joined.
        rcases List.append_eq_append_iff.mp (eq_of_divide? hdivide) with
          ⟨further, -, hlast⟩ | ⟨earlier, hjoined, hlast⟩
        · rcases Text.eq_or_later_of_colons hlast with hwhole | ⟨front, -, hfront | hfront⟩
          · exact .inl hwhole.symm
          · exact .inr (.inl ⟨front, hfront⟩)
          · exact .inr (.inl ⟨front ++ [':'], by rw [hfront, List.append_assoc]; rfl⟩)
        · rcases Text.eq_or_later_of_colons hlast with hwhole | ⟨part, hpart, hback⟩
          · exact .inl hwhole
          · have hend : part <:+ joined := hpart.trans ⟨scope, hjoined.symm⟩
            rcases hback with hback | hback
            · exact .inr (.inr ⟨part, hend, name, hback⟩)
            · exact .inr (.inr ⟨part, hend, ':' :: name, hback⟩)

end NameParts

end Understudy
