import Mathlib.Data.List.Basic

/-!
# Macro templates

A macro line is split at its variables. Filling the variables in gives the line
with each variable replaced by its argument.
-/

namespace Foton
namespace Macro

abbrev Text := List Char

/-- The character classes of the standard library. -/
structure CharClasses where
  isAlphanumeric : Char → Bool
  isWhitespace : Char → Bool
  closing_not_alphanumeric : isAlphanumeric ')' = false

structure StringTemplate where
  segments : List Text
  variableNames : List Text
  deriving DecidableEq, Repr

inductive TemplateError
  | unterminated
  | invalidName (variableName : Text)
  | noVariables
  deriving DecidableEq, Repr

def TemplateError.text : TemplateError → String
  | unterminated => "unterminated macro variable"
  | invalidName variableName => "invalid macro variable name '" ++ String.ofList variableName ++ "'"
  | noVariables => "no variables in macro"

section
variable (classes : CharClasses)

def isValidVariableName (variableName : Text) : Bool :=
  !variableName.isEmpty && variableName.all fun c => classes.isAlphanumeric c || c = '_'

/-- The scan of `parse`: `start` is the text since the last variable, and `inside`
the name read so far when the scan is between `$(` and the next `)`. -/
def scan (segments names : List Text) : (start : Text) → (inside : Option Text) → (input : Text) →
    Except TemplateError StringTemplate
  | start, none, [] =>
    if names = [] then .error .noVariables
    else .ok { segments := if start ≠ [] then segments ++ [start] else segments, variableNames := names }
  | start, none, '$' :: '(' :: input => scan (segments ++ [start]) names [] (some []) input
  | start, none, c :: input => scan segments names (start ++ [c]) none input
  | _, some _, [] => .error .unterminated
  | _, some variableName, ')' :: input =>
    if isValidVariableName classes variableName then scan segments (names ++ [variableName]) [] none input
    else .error (.invalidName variableName)
  | start, some variableName, c :: input => scan segments names start (some (variableName ++ [c])) input

namespace StringTemplate

def parse (input : Text) : Except TemplateError StringTemplate :=
  scan classes [] [] [] none input

end StringTemplate
end

/-- The arguments are given in the order of the variables. -/
def StringTemplate.substitute (template : StringTemplate) (arguments : List Text) : Text :=
  (arguments.zipIdx.flatMap fun (argument, index) => template.segments[index]?.getD [] ++ argument) ++
    if template.segments.length > template.variableNames.length then template.segments.getLast?.getD [] else []

/-! ## Replacing the variables of a line -/

/-- A text that begins with a variable. -/
def StartsVariable (classes : CharClasses) (text : Text) : Prop :=
  ∃ variableName rest, isValidVariableName classes variableName = true ∧
    text = '$' :: '(' :: (variableName ++ ')' :: rest)

/-- Every `$(name)` of the line is replaced by the argument of that name, and nothing else is. -/
inductive Replaced (classes : CharClasses) (argument : Text → Text) : (line text : Text) → Prop
  | nil : Replaced classes argument [] []
  | var {variableName line text : Text} : isValidVariableName classes variableName = true →
      Replaced classes argument line text →
      Replaced classes argument ('$' :: '(' :: (variableName ++ ')' :: line)) (argument variableName ++ text)
  | char {c : Char} {line text : Text} : ¬ StartsVariable classes (c :: line) →
      Replaced classes argument line text → Replaced classes argument (c :: line) (c :: text)

theorem closing_notMem {classes : CharClasses} {variableName : Text}
    (h : isValidVariableName classes variableName = true) : ')' ∉ variableName := by
  simp only [isValidVariableName, Bool.and_eq_true, List.all_eq_true] at h
  intro hmem
  have hc := h.2 _ hmem
  rw [classes.closing_not_alphanumeric] at hc
  revert hc
  decide

theorem name_unique {classes : CharClasses} {n n' rest rest' : Text} (h : isValidVariableName classes n = true)
    (h' : isValidVariableName classes n' = true) (heq : n ++ ')' :: rest = n' ++ ')' :: rest') : n = n' ∧ rest = rest' := by
  have hn := closing_notMem h
  have hn' := closing_notMem h'
  clear h h'
  induction n generalizing n' with
  | nil =>
    cases n' with
    | nil => exact ⟨rfl, (List.cons.inj heq).2⟩
    | cons c n' =>
      have hc : ')' = c := (List.cons.inj heq).1
      exact absurd (List.mem_cons.mpr (Or.inl hc)) hn'
  | cons c n ih =>
    cases n' with
    | nil =>
      have hc : c = ')' := (List.cons.inj heq).1
      exact absurd (List.mem_cons.mpr (Or.inl hc.symm)) hn
    | cons c' n' =>
      obtain ⟨hc, htail⟩ := List.cons.inj heq
      obtain ⟨hnames, hrest⟩ := ih htail (fun hmem => hn (List.mem_cons_of_mem _ hmem))
        fun hmem => hn' (List.mem_cons_of_mem _ hmem)
      exact ⟨by rw [hc, hnames], hrest⟩

theorem Replaced.unique {classes : CharClasses} {argument : Text → Text} {line text text' : Text}
    (h : Replaced classes argument line text) (h' : Replaced classes argument line text') : text = text' := by
  induction h generalizing text' with
  | nil =>
    cases h'
    rfl
  | @var n line text hn _ ih =>
    generalize hline : '$' :: '(' :: (n ++ ')' :: line) = whole at h'
    cases h' with
    | nil => cases hline
    | var hn' h' =>
      simp only [List.cons.injEq, true_and] at hline
      obtain ⟨rfl, rfl⟩ := name_unique hn hn' hline
      rw [ih h']
    | char hnot _ => exact absurd ⟨n, line, hn, hline.symm⟩ hnot
  | @char c line text hnot _ ih =>
    generalize hline : c :: line = whole at h'
    cases h' with
    | nil => cases hline
    | var hn' _ => exact absurd ⟨_, _, hn', hline⟩ hnot
    | char _ h' =>
      cases hline
      rw [ih h']

/-! ## The template of a line -/

/-- Segments and arguments in turn. -/
def weave (argument : Text → Text) : (segments names : List Text) → Text
  | segments, [] => segments.flatten
  | [], _ => []
  | segment :: segments, v :: names => segment ++ argument v ++ weave argument segments names

/-- One segment before each variable, and one more where text is left. -/
def Balanced (segments names : List Text) : Prop :=
  segments.length = names.length ∨ segments.length = names.length + 1

theorem substitute_from (argument : Text → Text) (names : List Text) : ∀ (segments done : List Text),
    Balanced segments names →
      ((names.map argument).zipIdx done.length).flatMap
          (fun (a, index) => (done ++ segments)[index]?.getD [] ++ a) ++
        (if segments.length > names.length then segments.getLast?.getD [] else []) =
        weave argument segments names := by
  induction names with
  | nil =>
    intro segments done h
    rcases h with h | h
    · have hnil : segments = [] := by simpa using h
      simp [hnil, weave]
    · obtain ⟨segment, rfl⟩ := List.length_eq_one_iff.mp (by simpa using h)
      simp [weave]
  | cons v names ih =>
    intro segments done h
    cases segments with
    | nil => rcases h with h | h <;> simp at h
    | cons segment segments =>
      have hrest : Balanced segments names := by
        rcases h with h | h
        · exact Or.inl (by simpa using h)
        · exact Or.inr (by simpa using h)
      have hih := ih segments (done ++ [segment]) hrest
      have hlast : (if (segment :: segments).length > (v :: names).length then (segment :: segments).getLast?.getD []
          else []) = if segments.length > names.length then segments.getLast?.getD [] else [] := by
        cases segments with
        | nil => simp
        | cons s segments => simp
      rw [hlast]
      simp only [List.length_append, List.length_singleton, List.append_assoc, List.singleton_append] at hih
      simp only [List.map_cons, List.zipIdx_cons, List.flatMap_cons, weave, List.append_assoc]
      rw [hih]
      simp

theorem substitute_eq_weave (argument : Text → Text) {template : StringTemplate}
    (h : Balanced template.segments template.variableNames) :
    template.substitute (template.variableNames.map argument) = weave argument template.segments template.variableNames := by
  have hfrom := substitute_from argument template.variableNames template.segments [] h
  simpa [StringTemplate.substitute] using hfrom

/-- What a finished scan has found in the rest of its input. -/
def Scanned (classes : CharClasses) (argument : Text → Text) (template : StringTemplate) (segments names : List Text)
    (start : Text) (inside : Option Text) (input : Text) : Prop :=
  match inside with
  | none => ∃ segments' names' text, template = ⟨segments ++ segments', names ++ names'⟩ ∧ Balanced segments' names' ∧
      Replaced classes argument input text ∧ weave argument segments' names' = start ++ text
  | some n => ∃ n' rest segments' names' text, input = n' ++ ')' :: rest ∧ isValidVariableName classes (n ++ n') = true ∧
      template = ⟨segments ++ segments', names ++ (n ++ n') :: names'⟩ ∧ Balanced segments' names' ∧
      Replaced classes argument rest text ∧ weave argument segments' names' = start ++ text

theorem scan_scanned (classes : CharClasses) (argument : Text → Text) (input : Text) :
    ∀ {segments names : List Text} {start : Text} {inside : Option Text} {template : StringTemplate},
      (∀ n, inside = some n → start = []) → scan classes segments names start inside input = .ok template →
        Scanned classes argument template segments names start inside input := by
  intro segments names start inside template hstart h
  fun_induction scan classes segments names start inside input with
  | case1 => cases h
  | case2 segments names start hnames =>
    cases h
    by_cases hnil : start = []
    · refine ⟨[], [], [], ?_, Or.inl rfl, .nil, ?_⟩ <;> simp [hnil, weave]
    · refine ⟨[start], [], [], ?_, Or.inr rfl, .nil, ?_⟩ <;> simp [hnil, weave]
  | case3 segments names start input ih =>
    obtain ⟨n', rest, segments', names', text, hinput, hvalid, htemplate, hbalanced, hreplaced, hweave⟩ :=
      ih (fun _ _ => rfl) h
    subst hinput
    refine ⟨start :: segments', n' :: names', argument n' ++ text, ?_, ?_, .var hvalid hreplaced, ?_⟩
    · simpa using htemplate
    · rcases hbalanced with hb | hb
      · exact Or.inl (by simp [hb])
      · exact Or.inr (by simp [hb])
    · simp only [weave]
      rw [hweave]
      simp
  | case4 segments names start c input hnot ih =>
    obtain ⟨segments', names', text, htemplate, hbalanced, hreplaced, hweave⟩ := ih (fun _ hn => by cases hn) h
    refine ⟨segments', names', c :: text, htemplate, hbalanced, .char ?_ hreplaced, ?_⟩
    · intro ⟨n, rest, _, heq⟩
      obtain ⟨hc, hinput⟩ := List.cons.inj heq
      exact hnot _ hc hinput
    · simpa using hweave
  | case5 => cases h
  | case6 segments names start n input hvalid ih =>
    obtain ⟨segments', names', text, htemplate, hbalanced, hreplaced, hweave⟩ := ih (fun _ hn => by cases hn) h
    refine ⟨[], input, segments', names', text, rfl, by simpa using hvalid, ?_, hbalanced, hreplaced, ?_⟩
    · simpa using htemplate
    · rw [hweave, hstart n rfl]
  | case7 => cases h
  | case8 segments names start n c input hnot ih =>
    obtain ⟨n', rest, segments', names', text, hinput, hvalid, htemplate, hbalanced, hreplaced, hweave⟩ :=
      ih (fun _ _ => hstart n rfl) h
    refine ⟨c :: n', rest, segments', names', text, by simp [hinput], ?_, ?_, hbalanced, hreplaced, hweave⟩
    · simpa using hvalid
    · simpa using htemplate

theorem substitute_replaced {classes : CharClasses} {line : Text} {template : StringTemplate}
    (h : StringTemplate.parse classes line = .ok template) (argument : Text → Text) :
    Replaced classes argument line (template.substitute (template.variableNames.map argument)) := by
  obtain ⟨segments, names, text, htemplate, hbalanced, hreplaced, hweave⟩ :=
    scan_scanned classes argument line (fun _ hn => by cases hn) h
  rw [List.nil_append, List.nil_append] at htemplate
  subst htemplate
  rw [substitute_eq_weave argument hbalanced, hweave]
  exact hreplaced

end Macro
end Foton
