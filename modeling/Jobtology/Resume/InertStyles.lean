import Jobtology.Resume.SafeCss

/-!
# Inert styles

What the style filter admits: a property of the list, a value of its grammar with balanced
parentheses, and no functions but `rgb` and `rgba` of numbers.
-/

namespace Jobtology.Resume

open Jobtology.Base Jobtology.Documents

/-! ## Purpose -/

/-- The properties that a style may set. -/
def allowedKeys : List (List Char) :=
  enums.map (·.1) ++ colorKeys ++ lengthKeys ++ columnKeys ++ borderKeys ++ [shadowKey]

/-- The value is of the property's grammar, with the given grammar of colours. -/
def typedValue (color : Regex Char) (key value : List Char) : Bool :=
  isEnum key value || (colorKeys.contains key && color.fullmatch value) ||
    (lengthKeys.contains key && lengthsRe.fullmatch value) ||
    (columnKeys.contains key && columnCountRe.fullmatch value) ||
    (borderKeys.contains key && (value == "none".toList || borderRe.fullmatch value)) ||
    (key == shadowKey && value == pageShadow)

/-- Every parenthesis is closed, with `depth` of them open before the text. -/
def balancedFrom : Nat → List Char → Bool
  | depth, [] => depth == 0
  | depth, c :: cs =>
    if c = '(' then balancedFrom (depth + 1) cs
    else if c = ')' then depth != 0 && balancedFrom (depth - 1) cs
    else balancedFrom depth cs

/-- The name before an opening parenthesis: what follows the last blank, comma or slash. -/
def calledName (before : List Char) : List Char :=
  (before.reverse.takeWhile fun c ↦ !isSpace c && c ≠ ',' && c ≠ '/').reverse

/-- A declaration that can only set a look: it calls nothing but `rgb` and `rgba` of numbers. -/
structure InertDeclaration (d : List Char × List Char) : Prop where
  allowed : d.1 ∈ allowedKeys
  typed : typedValue inertColor d.1 d.2 = true
  balanced : balancedFrom 0 d.2 = true
  calls : ∀ before after, d.2 = before ++ '(' :: after →
    calledName before ∈ texts ["rgb", "rgba"] ∧ numbers.fullmatch (after.takeWhile (· ≠ ')'))

/-- A declaration that is kept has the property of one that was read, and its value or the colour
its value is converted to. -/
def ComesFrom (L : Lowercase) (read : List Char) (kept : List Char × List Char) : Prop :=
  kept.1 = (parseDeclaration L read).1 ∧ (kept.2 = (parseDeclaration L read).2 ∨
    sanitizeCssColor (parseDeclaration L read).2 = .ok (some kept.2))

/-! ## Properties and grammars -/

/-- The colours of the filter: any text may stand between the parentheses of `rgb`. -/
def keptColor : Regex Char := .choice [hexColorRe, namedColorRe, rgbColorRe]

/-- An allowed property stands for itself in a declaration. -/
private structure PlainKey (key : List Char) : Prop where
  ne_nil : key ≠ []
  noColon : ':' ∉ key
  noBlank : ∀ c ∈ key, isSpace c = false
  isPlain : key.all plain = true

private theorem plainKey_of_allowed {key : List Char} (h : key ∈ allowedKeys) : PlainKey key := by
  have hall : ∀ key ∈ allowedKeys, key ≠ [] ∧ ':' ∉ key ∧
      key.all (fun c ↦ !isSpace c) = true ∧ key.all plain = true := by decide +kernel
  obtain ⟨hne, hcolon, hblank, hplain⟩ := hall key h
  exact ⟨hne, hcolon, fun c hc ↦ by simpa using List.all_eq_true.1 hblank c hc, hplain⟩

private theorem typedValue_iff {color : Regex Char} {key value : List Char} :
    typedValue color key value = true ↔
      isEnum key value = true ∨ (key ∈ colorKeys ∧ color.fullmatch value = true) ∨
      (key ∈ lengthKeys ∧ lengthsRe.fullmatch value = true) ∨
      (key ∈ columnKeys ∧ columnCountRe.fullmatch value = true) ∨
      (key ∈ borderKeys ∧ (value = "none".toList ∨ borderRe.fullmatch value = true)) ∨
      (key = shadowKey ∧ value = pageShadow) := by
  simp only [typedValue, Bool.or_eq_true, Bool.and_eq_true, List.contains_iff_mem, beq_iff_eq,
    or_assoc]

private theorem mem_of_isEnum {key value : List Char} (h : isEnum key value = true) :
    ∃ e ∈ enums, e.1 = key ∧ value ∈ e.2 := by
  simpa [isEnum] using h

private theorem allowed_of_typed {color : Regex Char} {key value : List Char}
    (h : typedValue color key value = true) : key ∈ allowedKeys := by
  simp only [allowedKeys, List.mem_append, List.mem_map, List.mem_singleton]
  rcases typedValue_iff.1 h with h | h | h | h | h | h
  · obtain ⟨e, he, hkey, -⟩ := mem_of_isEnum h
    exact .inl (.inl (.inl (.inl (.inl ⟨e, he, hkey⟩))))
  · exact .inl (.inl (.inl (.inl (.inr h.1))))
  · exact .inl (.inl (.inl (.inr h.1)))
  · exact .inl (.inl (.inr h.1))
  · exact .inl (.inr h.1)
  · exact .inr h.1

/-- A property with a colour has no other grammar. -/
theorem typedValue_color {color : Regex Char} {key value : List Char} (hkey : key ∈ colorKeys) :
    typedValue color key value = true ↔ color.fullmatch value = true := by
  have henums : ∀ e ∈ enums, e.1 ∉ colorKeys := by decide +kernel
  have hother : ∀ key ∈ colorKeys,
      key ∉ lengthKeys ∧ key ∉ columnKeys ∧ key ∉ borderKeys ∧ key ≠ shadowKey := by
    decide +kernel
  obtain ⟨hlength, hcolumn, hborder, hshadow⟩ := hother key hkey
  rw [typedValue_iff]
  constructor
  · rintro (h | h | h | h | h | h)
    · obtain ⟨e, he, rfl, -⟩ := mem_of_isEnum h
      exact absurd hkey (henums e he)
    · exact h.2
    · exact absurd h.1 hlength
    · exact absurd h.1 hcolumn
    · exact absurd h.1 hborder
    · exact absurd h.1 hshadow
  · intro h
    exact .inr (.inl ⟨hkey, h⟩)

/-- Only a colour and the page shadow have parentheses. -/
theorem no_paren_of_typed {color : Regex Char} {key value : List Char} {c : Char}
    (hc : c ∈ ['(', ')']) (h : typedValue color key value = true) (hkey : key ∉ colorKeys)
    (hshadow : value ≠ pageShadow) : c ∉ value := by
  have henums : ∀ e ∈ enums, ∀ value ∈ e.2, '(' ∉ value ∧ ')' ∉ value := by decide +kernel
  have hre : ∀ re ∈ [lengthsRe, columnCountRe, borderRe],
      re.avoids '(' = true ∧ re.avoids ')' = true := by decide +kernel
  have hmatch {re : Regex Char} (hmem : re ∈ [lengthsRe, columnCountRe, borderRe])
      (hvalue : re.fullmatch value = true) : c ∉ value := by
    apply Regex.not_mem_of_avoids _ (Regex.fullmatch_iff.1 hvalue)
    simp only [List.mem_cons, List.not_mem_nil, or_false] at hc
    rcases hc with rfl | rfl
    · exact (hre re hmem).1
    · exact (hre re hmem).2
  rcases typedValue_iff.1 h with h | h | h | h | h | h
  · obtain ⟨e, he, -, hvalue⟩ := mem_of_isEnum h
    simp only [List.mem_cons, List.not_mem_nil, or_false] at hc
    rcases hc with rfl | rfl
    · exact (henums e he value hvalue).1
    · exact (henums e he value hvalue).2
  · exact absurd h.1 hkey
  · exact hmatch (by simp) h.2
  · exact hmatch (by simp) h.2
  · cases h.2 with
    | inl hnone =>
      rw [hnone]
      have hnone : ∀ c ∈ ['(', ')'], c ∉ "none".toList := by simp
      exact hnone c hc
    | inr hborder => exact hmatch (by simp) hborder
  · exact absurd h.2 hshadow

/-! ## Parentheses -/

private theorem balancedFrom_append {front : List Char} (hopen : '(' ∉ front)
    (hclose : ')' ∉ front) (depth : Nat) (rest : List Char) :
    balancedFrom depth (front ++ rest) = balancedFrom depth rest := by
  induction front with
  | nil => rfl
  | cons c front ih =>
    simp only [List.mem_cons, not_or] at hopen hclose
    rw [List.cons_append, balancedFrom, if_neg (Ne.symm hopen.1), if_neg (Ne.symm hclose.1)]
    exact ih hopen.2 hclose.2

/-- A call of a text that calls once. -/
theorem call_unique {before after front back : List Char} (hfront : '(' ∉ front)
    (hback : '(' ∉ back) (h : front ++ '(' :: back = before ++ '(' :: after) :
    before = front ∧ after = back := by
  rcases List.append_eq_append_iff.1 h with ⟨between, rfl, hrest⟩ | ⟨between, rfl, hrest⟩
  · cases between with
    | nil => exact ⟨by simp, by simpa using hrest.symm⟩
    | cons c between =>
      injection hrest with _ hrest
      exact absurd (by simp [hrest]) hback
  · cases between with
    | nil => exact ⟨by simp, by simpa using hrest⟩
    | cons c between =>
      injection hrest with hc _
      exact absurd (by simp [← hc]) hfront

/-- The values whose calls are all inert. -/
private structure InertCalls (value : List Char) : Prop where
  balanced : balancedFrom 0 value = true
  calls : ∀ before after, value = before ++ '(' :: after →
    calledName before ∈ texts ["rgb", "rgba"] ∧ numbers.fullmatch (after.takeWhile (· ≠ ')'))

private theorem inertCalls_of_no_paren {value : List Char} (hopen : '(' ∉ value)
    (hclose : ')' ∉ value) : InertCalls value := by
  refine ⟨?_, ?_⟩
  · rw [← List.append_nil value, balancedFrom_append hopen hclose]
    rfl
  · rintro before after rfl
    exact absurd (by simp) hopen

/-- A value that calls once, with numbers. -/
theorem inertCalls_of_call {front inside : List Char} (hopen : '(' ∉ front)
    (hclose : ')' ∉ front) (hname : calledName front ∈ texts ["rgb", "rgba"])
    (hinside : inside ∈ numbers.language) : InertCalls (front ++ '(' :: (inside ++ [')'])) := by
  have hinsideOpen : '(' ∉ inside := Regex.not_mem_of_avoids (by decide) hinside
  have hinsideClose : ')' ∉ inside := Regex.not_mem_of_avoids (by decide) hinside
  refine ⟨?_, ?_⟩
  · rw [balancedFrom_append hopen hclose, balancedFrom, if_pos rfl,
      balancedFrom_append hinsideOpen hinsideClose]
    rfl
  · intro before after h
    obtain ⟨rfl, rfl⟩ := call_unique hopen (by simpa using hinsideOpen) h
    refine ⟨hname, Regex.fullmatch_iff.2 ?_⟩
    have hall : ∀ c ∈ inside, decide (c ≠ ')') = true := by
      intro c hc
      have hne : c ≠ ')' := fun h ↦ hinsideClose (h ▸ hc)
      simpa using hne
    rw [List.takeWhile_append_of_pos hall, List.takeWhile_cons_of_neg (by simp), List.append_nil]
    exact hinside

private theorem inertCalls_color {value : List Char} (h : inertColor.fullmatch value = true) :
    InertCalls value := by
  rw [Regex.fullmatch_iff, inertColor, Regex.mem_choice] at h
  obtain ⟨re, hre, h⟩ := h
  simp only [List.mem_cons, List.not_mem_nil, or_false] at hre
  rcases hre with rfl | rfl | rfl
  · exact inertCalls_of_no_paren (Regex.not_mem_of_avoids (by decide) h)
      (Regex.not_mem_of_avoids (by decide) h)
  · exact inertCalls_of_no_paren (Regex.not_mem_of_avoids (by decide) h)
      (Regex.not_mem_of_avoids (by decide) h)
  · obtain ⟨alpha, halpha, inside, hinside, rfl⟩ := mem_rgbAround.1 h
    have hfront : ∀ alpha ∈ [[], ['a']], '(' ∉ "rgb".toList ++ alpha ∧
        ')' ∉ "rgb".toList ++ alpha ∧
        calledName ("rgb".toList ++ alpha) ∈ texts ["rgb", "rgba"] := by decide
    obtain ⟨hopen, hclose, hname⟩ := hfront alpha halpha
    simpa using inertCalls_of_call hopen hclose hname hinside

private theorem inertCalls_pageShadow : InertCalls pageShadow := by
  have hinside : "0,0,0,0.08".toList ∈ numbers.language := Regex.fullmatch_iff.1 (by decide)
  exact @inertCalls_of_call "0 1px 3px rgba".toList _ (by decide) (by decide) (by decide) hinside

/-- A value of an inert grammar makes the declaration inert. -/
theorem inert_of_typed {d : List Char × List Char}
    (h : typedValue inertColor d.1 d.2 = true) : InertDeclaration d := by
  have hcalls : InertCalls d.2 := by
    by_cases hcolor : d.1 ∈ colorKeys
    · exact inertCalls_color ((typedValue_color hcolor).1 h)
    · by_cases hshadow : d.2 = pageShadow
      · rw [hshadow]
        exact inertCalls_pageShadow
      · exact inertCalls_of_no_paren (no_paren_of_typed (by simp) h hcolor hshadow)
          (no_paren_of_typed (by simp) h hcolor hshadow)
  exact ⟨allowed_of_typed h, h, hcalls.balanced, hcalls.calls⟩

/-! ## Kept declarations -/

section Filter

variable {L : Lowercase}

/-- What holds of a declaration that is kept for one that was read. -/
private structure Kept (L : Lowercase) (read : List Char) (kept : List Char × List Char) :
    Prop where
  comes : ComesFrom L read kept
  typed : typedValue keptColor kept.1 kept.2 = true
  trimmed : Trimmed kept.2
  lowered : L.lower kept.2 = kept.2
  noSemicolon : ';' ∉ read → ';' ∉ kept.2

private theorem infix_value (read : List Char) :
    strip (((strip read).dropWhile (· ≠ ':')).drop 1) <:+: read :=
  (infix_strip _).trans ((List.drop_suffix 1 _).isInfix.trans
    ((List.dropWhile_suffix _).isInfix.trans (infix_strip read)))

private theorem kept_value {read : List Char}
    (h : typedValue keptColor (parseDeclaration L read).1 (parseDeclaration L read).2 = true) :
    Kept L read (parseDeclaration L read) where
  comes := ⟨rfl, .inl rfl⟩
  typed := h
  trimmed := L.trimmed (trimmed_strip _)
  lowered := L.lower_part (List.infix_refl _)
  noSemicolon := by
    intro hread hvalue
    exact hread ((infix_value read).subset (L.mem_semicolon hvalue))

private theorem lower_plain {text : List Char} (h : text.all plain = true) :
    L.lower text = text := by
  have hplain : ∀ c ∈ text, c.toNat < 128 ∧ c.toLower = c := by
    intro c hc
    have h := List.all_eq_true.1 h c hc
    simp only [plain, Bool.and_eq_true, decide_eq_true_eq] at h
    exact h.1
  rw [L.lower_ascii fun c hc ↦ (hplain c hc).1]
  exact (List.map_congr_left fun c hc ↦ (hplain c hc).2).trans (List.map_id _)

private theorem kept_converted {read color : List Char}
    (hkey : (parseDeclaration L read).1 ∈ colorKeys)
    (hcolor : sanitizeCssColor (parseDeclaration L read).2 = .ok (some color))
    (hmatch : keptColor.fullmatch color = true) (htrim : Trimmed color)
    (hplain : color.all plain = true) :
    Kept L read ((parseDeclaration L read).1, color) where
  comes := ⟨rfl, .inr hcolor⟩
  typed := (typedValue_color hkey).2 hmatch
  trimmed := htrim
  lowered := lower_plain hplain
  noSemicolon := by
    intro _ hmem
    have h := List.all_eq_true.1 hplain ';' hmem
    exact absurd h (by decide)

private theorem keptColor_iff {value : List Char} :
    keptColor.fullmatch value = true ↔ hexColorRe.fullmatch value = true ∨
      rgbColorRe.fullmatch value = true ∨ namedColorRe.fullmatch value = true := by
  simp only [Regex.fullmatch_iff, keptColor, Regex.mem_choice, List.mem_cons, List.not_mem_nil,
    or_false, exists_eq_or_imp, exists_eq_left]
  tauto

/-- The pass of the loop keeps a declaration of the grammar. -/
theorem kept_of_safeDeclaration {read : List Char} {kept : List Char × List Char}
    (h : safeDeclaration L read = .ok (some kept)) : Kept L read kept := by
  unfold safeDeclaration safeValue at h
  split_ifs at h with henum hcolor hlength hborder hnone hshadow
  · cases h
    exact kept_value (typedValue_iff.2 (.inl henum))
  · obtain ⟨found, hfound, h⟩ := bind_eq_ok.mp h
    cases found with
    | none => cases h
    | some color =>
      cases h
      rcases sanitizeCssColor_cases hfound with ⟨heq, hmatch⟩ | ⟨r, g, b, heq⟩ |
        ⟨r, g, b, alpha, heq⟩
      · have hvalue : color = (parseDeclaration L read).2 := by
          rw [heq]
          exact strip_of_trimmed (L.trimmed (trimmed_strip _))
        rw [hvalue] at hmatch ⊢
        exact kept_value ((typedValue_color hcolor).2 (keptColor_iff.2 hmatch))
      · refine kept_converted hcolor hfound (keptColor_iff.2 (.inl ?_)) ?_ ?_
        · rw [heq]
          exact Regex.fullmatch_iff.2 (rgbToHex_inert r g b)
        · rw [heq]
          exact trimmed_rgbToHex r g b
        · rw [heq]
          exact plain_rgbToHex r g b
      · refine kept_converted hcolor hfound (keptColor_iff.2 (.inr (.inl ?_))) ?_ ?_
        · rw [heq]
          exact Regex.fullmatch_iff.2 (rgbColor_of_numbers (rgbaText_inert r g b alpha))
        · rw [heq]
          exact trimmed_rgbaText r g b _
        · rw [heq]
          exact plain_rgbaText r g b _
  · cases h
    exact kept_value (typedValue_iff.2 (hlength.elim (fun h ↦ .inr (.inr (.inl h)))
      fun h ↦ .inr (.inr (.inr (.inl h)))))
  · cases h
  · cases h
    refine kept_value (typedValue_iff.2 (.inr (.inr (.inr (.inr (.inl ⟨hborder, ?_⟩))))))
    by_contra hvalue
    rw [not_or] at hvalue
    exact hnone hvalue
  · cases h
    exact kept_value (typedValue_iff.2 (.inr (.inr (.inr (.inr (.inr hshadow))))))
  · cases h

/-- What the filter writes are declarations of the grammar. -/
theorem typed_of_safeDeclarations {css : List Char} {outs : List (List Char × List Char)}
    (h : safeDeclarations L css = .ok outs) :
    ∀ o ∈ outs, typedValue keptColor o.1 o.2 = true := by
  intro o ho
  obtain ⟨found, hfound, h⟩ := bind_eq_ok.mp h
  cases h
  obtain ⟨kept, hkept, hsome⟩ := List.mem_filterMap.1 ho
  obtain ⟨read, -, hread⟩ := exists_of_mem_right (forall₂_of_mapM_ok hfound) hkept
  cases hsome
  exact (kept_of_safeDeclaration hread).typed

/-- The styles on which the filter raises: a colour is a bracketed list of numbers with an infinite
level or one that is no number. -/
def UnboundedStyle (L : Lowercase) (css : List Char) : Prop :=
  ∃ read ∈ css.splitOn ';', (parseDeclaration L read).1 ∈ colorKeys ∧
    UnboundedColor (parseDeclaration L read).2

/-- The styles are read with an error exactly if a colour is unbounded. -/
theorem safeCss_error_iff {css : List Char} :
    (∃ e, safeCss L css = .error e) ↔ UnboundedStyle L css := by
  have hstyle : (∃ e, safeCss L css = .error e) ↔
      ∃ read ∈ css.splitOn ';', ∃ e, safeDeclaration L read = .error e := by
    rw [← exists_mapM_error_iff]
    exact exists_bind_pure_error_iff.trans exists_bind_pure_error_iff
  rw [hstyle]
  refine exists_congr fun read ↦ and_congr_right fun _ ↦ ?_
  have htrim : strip (parseDeclaration L read).2 = (parseDeclaration L read).2 :=
    strip_of_trimmed (L.trimmed (trimmed_strip _))
  have henums : ∀ e ∈ enums, e.1 ∉ colorKeys := by decide +kernel
  unfold safeDeclaration safeValue
  split_ifs with henum hcolor
  · obtain ⟨e, he, hkey, -⟩ := mem_of_isEnum henum
    simp [← hkey, henums e he, pure, Except.pure]
  · rw [← htrim, ← sanitizeCssColor_error_iff, htrim]
    simp only [hcolor, true_and]
    exact exists_bind_pure_error_iff
  all_goals simp [hcolor, pure, Except.pure]

/-! ## The filter on its own output -/

/-- The text of a declaration with an allowed property is read back. -/
theorem parseDeclaration_render {key value : List Char} (hkey : PlainKey key)
    (htrim : Trimmed value) (hlower : L.lower value = value) :
    parseDeclaration L (renderDeclaration (key, value)) = (key, value) := by
  have hkeyTrim : Trimmed key := by
    refine ⟨fun c hc ↦ hkey.noBlank c ?_, fun c hc ↦ hkey.noBlank c ?_⟩
    · exact List.mem_of_mem_head? hc
    · exact List.mem_of_mem_getLast? hc
  have htext : Trimmed (renderDeclaration (key, value)) := by
    refine ⟨fun c hc ↦ hkeyTrim.first c ?_, ?_⟩
    · cases key with
      | nil => exact absurd rfl hkey.ne_nil
      | cons a key => exact hc
    · intro c hc
      cases hlast : value.getLast? with
      | none =>
        have hcolon : c = ':' := by
          simpa [renderDeclaration, List.getLast?_append, List.getLast?_cons, hlast] using hc.symm
        rw [hcolon]
        decide
      | some last =>
        have hsame : c = last := by
          simpa [renderDeclaration, List.getLast?_append, List.getLast?_cons, hlast] using hc.symm
        exact htrim.last c (hsame ▸ hlast)
  have hall : ∀ c ∈ key, decide (c ≠ ':') = true := by
    intro c hc
    have hne : c ≠ ':' := fun h ↦ hkey.noColon (h ▸ hc)
    simpa using hne
  unfold parseDeclaration
  rw [strip_of_trimmed htext]
  dsimp only [renderDeclaration]
  rw [List.takeWhile_append_of_pos hall, List.dropWhile_append_of_pos hall,
    List.takeWhile_cons_of_neg (by simp), List.dropWhile_cons_of_neg (by simp), List.append_nil,
    List.drop_succ_cons, List.drop_zero, strip_of_trimmed hkeyTrim, strip_of_trimmed htrim,
    lower_plain hkey.isPlain, hlower]

/-- A value of the grammar is kept as it is. -/
theorem safeValue_typed {key value : List Char} (htrim : Trimmed value)
    (h : typedValue keptColor key value = true) :
    safeValue key value = .ok (some (key, value)) := by
  have hborderShadow : shadowKey ∉ borderKeys := by decide +kernel
  unfold safeValue
  split_ifs with henum hcolor hlength hborder hnone hshadow
  · rfl
  · have hmatch := (typedValue_color hcolor).1 h
    have hne : value ≠ [] := by
      rintro rfl
      exact absurd hmatch (by decide)
    rw [sanitizeCssColor_self htrim hne (keptColor_iff.1 hmatch)]
    rfl
  · rfl
  · rcases typedValue_iff.1 h with h | h | h | h | h | h
    · exact absurd h henum
    · exact absurd h.1 hcolor
    · exact absurd (.inl h) hlength
    · exact absurd (.inr h) hlength
    · exact absurd h.2 (not_or.2 hnone)
    · exact absurd (h.1 ▸ hborder) hborderShadow
  · rfl
  · rfl
  · rcases typedValue_iff.1 h with h | h | h | h | h | h
    · exact absurd h henum
    · exact absurd h.1 hcolor
    · exact absurd (.inl h) hlength
    · exact absurd (.inr h) hlength
    · exact absurd h.1 hborder
    · exact absurd h hshadow

private theorem Kept.fixed {read : List Char} {kept : List Char × List Char}
    (h : Kept L read kept) :
    safeDeclaration L (renderDeclaration kept) = .ok (some kept) := by
  have hkey := plainKey_of_allowed (allowed_of_typed h.typed)
  unfold safeDeclaration
  rw [parseDeclaration_render hkey h.trimmed h.lowered]
  exact safeValue_typed h.trimmed h.typed

private theorem Kept.render_noSemicolon {read : List Char} {kept : List Char × List Char}
    (h : Kept L read kept) (hread : ';' ∉ read) : ';' ∉ renderDeclaration kept := by
  have hkey := (plainKey_of_allowed (allowed_of_typed h.typed)).isPlain
  simp only [renderDeclaration, List.mem_append, List.mem_cons, not_or]
  refine ⟨fun hmem ↦ ?_, by decide, h.noSemicolon hread⟩
  exact absurd (List.all_eq_true.1 hkey ';' hmem) (by decide)

/-- Filtering what the filter wrote gives it back. -/
theorem safeDeclarations_renderStyle {outs : List (List Char × List Char)}
    (h : ∀ o ∈ outs, ∃ read, ';' ∉ read ∧ Kept L read o) :
    safeDeclarations L (renderStyle outs) = .ok outs := by
  have hfixed (os : List (List Char × List Char)) (hos : ∀ o ∈ os, o ∈ outs) :
      (os.map renderDeclaration).mapM (safeDeclaration L) = .ok (os.map some) := by
    induction os with
    | nil => rfl
    | cons o os ih =>
      obtain ⟨read, _, hkept⟩ := h o (hos o (by simp))
      rw [List.map_cons, List.mapM_cons, hkept.fixed, ih fun o' ho' ↦ hos o' (by simp [ho'])]
      rfl
  have hnone : safeDeclaration L [] = .ok none := by
    have hlower : L.lower [] = [] := L.lower_ascii (by simp)
    change safeValue (L.lower []) (L.lower []) = .ok none
    rw [hlower]
    decide +kernel
  unfold safeDeclarations renderStyle
  by_cases hnil : outs = []
  · subst hnil
    simp only [List.map_nil, List.intercalate_nil, List.splitOn_nil, List.mapM_cons, hnone]
    rfl
  · rw [List.splitOn_intercalate _ ?_ (by simpa using hnil), hfixed outs fun o ho ↦ ho]
    · change Except.ok ((outs.map some).filterMap id) = _
      rw [List.filterMap_map]
      simp
    · intro text htext
      obtain ⟨o, ho, rfl⟩ := List.mem_map.1 htext
      obtain ⟨read, hread, hkept⟩ := h o ho
      exact hkept.render_noSemicolon hread

/-- The kept declarations come from some of the declarations that were read, in their order. -/
theorem kept_of_safeDeclarations {css : List Char} {outs : List (List Char × List Char)}
    (h : safeDeclarations L css = .ok outs) :
    ∃ reads, reads.Sublist (css.splitOn ';') ∧
      List.Forall₂ (fun read o ↦ safeDeclaration L read = .ok (some o)) reads outs := by
  obtain ⟨found, hfound, h⟩ := bind_eq_ok.mp h
  cases h
  exact exists_sublist_of_forall₂ (forall₂_of_mapM_ok hfound)

/-- A colour between parentheses is inert when numbers stand between them. -/
theorem inertColor_of_kept {value : List Char} (h : keptColor.fullmatch value = true)
    (hnumbers : rgbColorRe.fullmatch value → (rgbAround numbers).fullmatch value) :
    inertColor.fullmatch value = true := by
  simp only [inertColor, Regex.fullmatch_iff, Regex.mem_choice]
  rcases keptColor_iff.1 h with h | h | h
  · exact ⟨hexColorRe, by simp, Regex.fullmatch_iff.1 h⟩
  · exact ⟨rgbAround numbers, by simp, Regex.fullmatch_iff.1 (hnumbers h)⟩
  · exact ⟨namedColorRe, by simp, Regex.fullmatch_iff.1 h⟩

/-- An inert colour that is between parentheses has numbers there. -/
theorem numbers_of_inertColor {value : List Char} (h : inertColor.fullmatch value = true)
    (hrgb : rgbColorRe.fullmatch value = true) : (rgbAround numbers).fullmatch value = true := by
  have hparen : '(' ∈ value := by
    obtain ⟨alpha, _, inside, _, rfl⟩ := mem_rgbAround.1 (Regex.fullmatch_iff.1 hrgb)
    simp
  rw [Regex.fullmatch_iff, inertColor, Regex.mem_choice] at h
  obtain ⟨re, hre, h⟩ := h
  simp only [List.mem_cons, List.not_mem_nil, or_false] at hre
  rcases hre with rfl | rfl | rfl
  · exact absurd hparen (Regex.not_mem_of_avoids (by decide) h)
  · exact absurd hparen (Regex.not_mem_of_avoids (by decide) h)
  · exact Regex.fullmatch_iff.2 h

private theorem typed_inert_of_kept {key value : List Char}
    (h : typedValue keptColor key value = true)
    (hnumbers : key ∈ colorKeys → rgbColorRe.fullmatch value →
      (rgbAround numbers).fullmatch value) : typedValue inertColor key value = true := by
  by_cases hkey : key ∈ colorKeys
  · exact (typedValue_color hkey).2
      (inertColor_of_kept ((typedValue_color hkey).1 h) (hnumbers hkey))
  · rw [typedValue_iff] at h ⊢
    simpa only [hkey, false_and, false_or] using h

private theorem inert_of_kept {read : List Char} {o : List Char × List Char}
    (h : Kept L read o) (hnumbers : (parseDeclaration L read).1 ∈ colorKeys →
      rgbColorRe.fullmatch (parseDeclaration L read).2 →
        (rgbAround numbers).fullmatch (parseDeclaration L read).2) : InertDeclaration o := by
  apply inert_of_typed
  refine typed_inert_of_kept h.typed fun hkey hrgb ↦ ?_
  obtain ⟨hsame, hvalue⟩ := h.comes
  rw [hsame] at hkey
  have hread : o.2 = (parseDeclaration L read).2 → (rgbAround numbers).fullmatch o.2 := by
    intro heq
    rw [heq] at hrgb ⊢
    exact hnumbers hkey hrgb
  rcases hvalue with hvalue | hvalue
  · exact hread hvalue
  · rcases sanitizeCssColor_cases hvalue with ⟨heq, -⟩ | ⟨r, g, b, heq⟩ | ⟨r, g, b, alpha, heq⟩
    · exact hread (heq.trans (strip_of_trimmed (L.trimmed (trimmed_strip _))))
    · have hhex : inertColor.fullmatch o.2 = true := by
        rw [inertColor, Regex.fullmatch_iff, Regex.mem_choice]
        exact ⟨hexColorRe, by simp, heq ▸ rgbToHex_inert r g b⟩
      exact numbers_of_inertColor hhex hrgb
    · rw [heq]
      exact Regex.fullmatch_iff.2 (rgbaText_inert r g b alpha)

/-- The filter keeps inert declarations, in order, and is stable on its output, when every colour
between the parentheses of `rgb` or `rgba` is a list of numbers; and only then.
`src/jobtology_be/resume/preview.py:35–61`,
`src/jobtology_be/document_processor/pdf/meta.py:104–145`. -/
theorem safeDeclarations_inert_iff {css : List Char} {outs : List (List Char × List Char)}
    (h : safeDeclarations L css = .ok outs) :
    ((∀ o ∈ outs, InertDeclaration o) ∧
      (∃ reads, reads.Sublist (css.splitOn ';') ∧ List.Forall₂ (ComesFrom L) reads outs) ∧
      safeCss L (renderStyle outs) = .ok (renderStyle outs)) ↔
    ∀ read ∈ css.splitOn ';', (parseDeclaration L read).1 ∈ colorKeys →
      rgbColorRe.fullmatch (parseDeclaration L read).2 →
        (rgbAround numbers).fullmatch (parseDeclaration L read).2 := by
  obtain ⟨reads, hsub, hreads⟩ := kept_of_safeDeclarations h
  have hkept : List.Forall₂ (Kept L) reads outs :=
    hreads.imp fun _ _ hread ↦ kept_of_safeDeclaration hread
  constructor
  · rintro ⟨hinert, -, -⟩ read hread hkey hrgb
    have htyped : typedValue keptColor (parseDeclaration L read).1 (parseDeclaration L read).2 :=
      (typedValue_color hkey).2 (keptColor_iff.2 (.inr (.inl hrgb)))
    have hsafe : safeDeclaration L read = .ok (some (parseDeclaration L read)) :=
      safeValue_typed (L.trimmed (trimmed_strip _)) htyped
    have hmem : parseDeclaration L read ∈ outs := by
      obtain ⟨found, hfound, hfilter⟩ := bind_eq_ok.mp h
      cases hfilter
      obtain ⟨o, ho, hsame⟩ := exists_of_mem_left (forall₂_of_mapM_ok hfound) hread
      rw [hsafe] at hsame
      cases hsame
      exact List.mem_filterMap.2 ⟨_, ho, rfl⟩
    exact numbers_of_inertColor ((typedValue_color hkey).1 (hinert _ hmem).typed) hrgb
  · intro hnumbers
    refine ⟨?_, ⟨reads, hsub, hkept.imp fun _ _ hread ↦ hread.comes⟩, ?_⟩
    · intro o ho
      obtain ⟨read, hread, hkeptRead⟩ := exists_of_mem_right hkept ho
      exact inert_of_kept hkeptRead (hnumbers read (hsub.subset hread))
    · have hagain : safeDeclarations L (renderStyle outs) = .ok outs := by
        apply safeDeclarations_renderStyle
        intro o ho
        obtain ⟨read, hread, hkeptRead⟩ := exists_of_mem_right hkept ho
        exact ⟨read, not_mem_of_mem_splitOn (hsub.subset hread), hkeptRead⟩
      unfold safeCss
      rw [hagain]
      rfl

end Filter

/-- A colour is kept, and a position dropped. -/
theorem safeDeclarations_inert_iff_red :
    safeDeclarations asciiLower " COLOR : Rgb(1, 2, 3) ;top:0".toList =
        .ok [("color".toList, "rgb(1, 2, 3)".toList)] ∧
      InertDeclaration ("color".toList, "rgb(1, 2, 3)".toList) := by
  have h : safeDeclarations asciiLower " COLOR : Rgb(1, 2, 3) ;top:0".toList =
      .ok [("color".toList, "rgb(1, 2, 3)".toList)] := by decide +kernel
  have hnumbers : ∀ read ∈ " COLOR : Rgb(1, 2, 3) ;top:0".toList.splitOn ';',
      (parseDeclaration asciiLower read).1 ∈ colorKeys →
        rgbColorRe.fullmatch (parseDeclaration asciiLower read).2 →
          (rgbAround numbers).fullmatch (parseDeclaration asciiLower read).2 := by
    decide +kernel
  exact ⟨h, ((safeDeclarations_inert_iff h).2 hnumbers).1 _ (by simp)⟩

/-- A function that is hidden between the parentheses of a colour is kept. -/
theorem hiddenCall_kept :
    safeDeclarations asciiLower "color:rgb(url(x)".toList =
        .ok [("color".toList, "rgb(url(x)".toList)] ∧
      ¬InertDeclaration ("color".toList, "rgb(url(x)".toList) := by
  refine ⟨by decide +kernel, fun h ↦ ?_⟩
  have hbalanced : balancedFrom 0 "rgb(url(x)".toList ≠ true := by decide
  exact hbalanced h.balanced

end Jobtology.Resume
