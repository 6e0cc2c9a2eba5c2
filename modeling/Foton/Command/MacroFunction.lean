import Foton.Command.Template
import Foton.Lib.Fallible
import Foton.Lib.KeyedEntries
import Foton.Lib.Memo
import Foton.Snbt.Tag
import Mathlib.Data.List.Forall2
import Mathlib.Data.List.Induction

/-!
# Macro functions

A function file with a `$` line becomes a macro function. Its plain lines are
compiled when it is loaded and its `$` lines when it is called; the results of
the last eight argument lists are kept. Compiling a command is a parameter, and
so is writing a tag as text where no plain number or string is written.
-/

namespace Foton
namespace Macro

structure Compiler (Action SyntaxError : Type) where
  compile : Text → Except SyntaxError Action
  display : SyntaxError → Text

structure Writer where
  decimalOfFloat : UInt32 → Text
  decimalOfDouble : UInt64 → Text
  canonicalSnbt : Snbt.NbtTag → Text

variable {Action SyntaxError : Type}

/-! ## Parsing a function file -/

def maxCommandLineLength : Nat := 2000000

structure FunctionParseError where
  line : Nat
  message : String
  deriving DecidableEq, Repr

inductive MacroEntry (Action : Type)
  | plain (action : Action)
  | template (template : StringTemplate) (parameters : List Nat)

structure MacroFunction (Action : Type) where
  parameters : List Text
  entries : List (MacroEntry Action)
  cache : List (List Text × List Action)

inductive FunctionBody (Action : Type)
  | plain (entries : List Action)
  | macroFunction (function : MacroFunction Action)

section
variable (classes : CharClasses)

def trim (line : Text) : Text :=
  ((line.dropWhile classes.isWhitespace).reverse.dropWhile classes.isWhitespace).reverse

def endsWithContinuation (line : Text) : Bool := line.getLast? = some '\\'

def byteLength (line : Text) : Nat := (String.ofList line).utf8ByteSize

def tooLong (lineNumber : Nat) (line : Text) : FunctionParseError :=
  ⟨lineNumber, "command too long: " ++ toString (byteLength line) ++ " characters"⟩

/-- The lines with their continuations joined, up to the first that cannot be
joined; `pending` is a line that goes on, with its number. -/
def logicalLines : (pending : Option (Nat × Text)) → (lineNumber : Nat) → (lines : List Text) →
    List (Nat × Except FunctionParseError Text)
  | none, _, [] => []
  | some (start, _), _, [] => [(start, .error ⟨start, "line continuation at end of file"⟩)]
  | none, lineNumber, line :: lines =>
    let joined := trim classes line
    if endsWithContinuation joined then logicalLines (some (lineNumber, joined)) (lineNumber + 1) lines
    else if byteLength joined > maxCommandLineLength then [(lineNumber, .error (tooLong lineNumber joined))]
    else (lineNumber, .ok joined) :: logicalLines none (lineNumber + 1) lines
  | some (start, joined), lineNumber, line :: lines =>
    let joined := joined.dropLast ++ trim classes line
    if byteLength joined > maxCommandLineLength then [(start, .error (tooLong start joined))]
    else if endsWithContinuation joined then logicalLines (some (start, joined)) (lineNumber + 1) lines
    else (start, .ok joined) :: logicalLines none (lineNumber + 1) lines

/-- The builder; `plain` holds the actions until the first `$` line. -/
structure BodyBuilder (Action : Type) where
  plain : Option (List Action)
  macroEntries : List (MacroEntry Action)
  macroArguments : List Text

namespace BodyBuilder

def new : BodyBuilder Action := { plain := some [], macroEntries := [], macroArguments := [] }

def addCommand (b : BodyBuilder Action) (action : Action) : BodyBuilder Action :=
  match b.plain with
  | some plain => { b with plain := some (plain ++ [action]) }
  | none => { b with macroEntries := b.macroEntries ++ [.plain action] }

def argumentIndex (arguments : List Text) (argumentName : Text) : Nat × List Text :=
  match arguments.idxOf? argumentName with
  | some index => (index, arguments)
  | none => (arguments.length, arguments ++ [argumentName])

def argumentIndices : (arguments names : List Text) → List Nat × List Text
  | arguments, [] => ([], arguments)
  | arguments, argumentName :: names =>
    let (index, arguments) := argumentIndex arguments argumentName
    let (indices, arguments) := argumentIndices arguments names
    (index :: indices, arguments)

/-- The entries once there is a `$` line. -/
def entries (b : BodyBuilder Action) : List (MacroEntry Action) :=
  match b.plain with
  | some plain => plain.map .plain
  | none => b.macroEntries

def addMacro (b : BodyBuilder Action) (line : Text) (lineNumber : Nat) :
    Except FunctionParseError (BodyBuilder Action) :=
  match StringTemplate.parse classes line with
  | .error error => .error ⟨lineNumber, error.text⟩
  | .ok template =>
    let (parameters, macroArguments) := argumentIndices b.macroArguments template.variableNames
    .ok { plain := none, macroEntries := b.entries ++ [.template template parameters], macroArguments }

def build (b : BodyBuilder Action) : FunctionBody Action :=
  match b.plain with
  | some plain => .plain plain
  | none => .macroFunction { parameters := b.macroArguments, entries := b.macroEntries, cache := [] }

end BodyBuilder

def slashError (lineNumber : Nat) (line : Text) : FunctionParseError :=
  let rest := line.drop 1
  if rest.head? = some '/' then
    ⟨lineNumber, "unknown or invalid command '" ++ String.ofList line ++
      "' (if you intended to make a comment, use '#' not '//')"⟩
  else
    let commandName := rest.takeWhile fun c => !classes.isWhitespace c
    ⟨lineNumber, "unknown or invalid command '" ++ String.ofList line ++ "' (did you mean '" ++
      String.ofList commandName ++ "'? Do not use a preceding forwards slash.)"⟩

variable (compiler : Compiler Action SyntaxError)

/-- One turn of the loop over the lines. -/
def addLine (b : BodyBuilder Action) : (line : Nat × Except FunctionParseError Text) →
    Except FunctionParseError (BodyBuilder Action)
  | (_, .error error) => .error error
  | (lineNumber, .ok joined) =>
    match trim classes joined with
    | [] => .ok b
    | '#' :: _ => .ok b
    | '/' :: rest => .error (slashError classes lineNumber ('/' :: rest))
    | '$' :: line => b.addMacro classes line lineNumber
    | c :: rest =>
      match compiler.compile (c :: rest) with
      | .ok action => .ok (b.addCommand action)
      | .error error =>
        .error ⟨lineNumber, "whilst parsing command: " ++ String.ofList (compiler.display error)⟩

def parseBody (lines : List Text) : Except FunctionParseError (FunctionBody Action) :=
  match (logicalLines classes none 1 lines).foldlM (addLine classes compiler) BodyBuilder.new with
  | .error error => .error error
  | .ok b => .ok b.build

end

/-! ## Calling a macro function -/

def maxCacheEntries : Nat := 8

inductive InstantiationError
  | missingArguments (id : Text)
  | missingArgument (id parameter : Text)
  | parse (id command error : Text)
  deriving DecidableEq, Repr

section
variable (writer : Writer) (compiler : Compiler Action SyntaxError)

/-- A number goes in without its suffix and a string without its quotes. -/
def stringify : Snbt.NbtTag → Text
  | .byte value => (toString value.toInt).toList
  | .short value => (toString value.toInt).toList
  | .int value => (toString value.toInt).toList
  | .long value => (toString value.toInt).toList
  | .float bits => writer.decimalOfFloat bits
  | .double bits => writer.decimalOfDouble bits
  | .string value => value
  | other => writer.canonicalSnbt other

def readValues (id : Text) (arguments : List (Text × Snbt.NbtTag)) (parameters : List Text) :
    Except InstantiationError (List Text) :=
  parameters.mapM fun parameter =>
    match arguments.lookup parameter with
    | some value => .ok (stringify writer value)
    | none => .error (.missingArgument id parameter)

def compileEntry (id : Text) (values : List Text) : MacroEntry Action → Except InstantiationError Action
  | .plain action => .ok action
  | .template template parameters =>
    let substitutions := parameters.filterMap fun index => values[index]?
    let command := template.substitute substitutions
    match compiler.compile command with
    | .ok action => .ok action
    | .error error => .error (.parse id command (compiler.display error))

namespace MacroFunction

/-- A call, and the function with the cache it leaves behind. -/
def instantiate (f : MacroFunction Action) (id : Text) (arguments : Option (List (Text × Snbt.NbtTag))) :
    Except InstantiationError (List Action) × MacroFunction Action :=
  match arguments with
  | none => (.error (.missingArguments id), f)
  | some arguments =>
    match readValues writer id arguments f.parameters with
    | .error error => (.error error, f)
    | .ok values =>
      match Memo.find f.cache values with
      | some (cached, cache) => (.ok cached, { f with cache })
      | none =>
        match f.entries.mapM (compileEntry compiler id values) with
        | .error error => (.error error, f)
        | .ok instantiated =>
          (.ok instantiated, { f with cache := Memo.store maxCacheEntries f.cache values instantiated })

def afterCalls (f : MacroFunction Action) (calls : List (Text × Option (List (Text × Snbt.NbtTag)))) :
    MacroFunction Action :=
  calls.foldl (fun f call => (f.instantiate writer compiler call.1 call.2).2) f

end MacroFunction
end

/-! ## What the lines become -/

/-- A line of a function: a command, or the text behind a `$`. -/
inductive BodyLine
  | command (line : Text)
  | templateLine (line : Text)

def classify : Text → Option BodyLine
  | [] => none
  | '#' :: _ => none
  | '/' :: _ => none
  | '$' :: line => some (.templateLine line)
  | c :: rest => some (.command (c :: rest))

def lineOf (classes : CharClasses) : Nat × Except FunctionParseError Text → Option BodyLine
  | (_, .error _) => none
  | (_, .ok joined) => classify (trim classes joined)

/-- The lines that become entries. -/
def bodyLines (classes : CharClasses) (lines : List Text) : List BodyLine :=
  (logicalLines classes none 1 lines).filterMap (lineOf classes)

def argumentOf (parameters values : List Text) (argumentName : Text) : Text :=
  ((parameters.zip values).lookup argumentName).getD []

/-- A command line is compiled; a `$` line has its variables replaced, whatever the values. -/
def Expands (classes : CharClasses) (compiler : Compiler Action SyntaxError) (f : MacroFunction Action) :
    BodyLine → MacroEntry Action → Prop
  | .command line, .plain action => compiler.compile line = .ok action
  | .templateLine line, .template template indices => ∀ values, values.length = f.parameters.length →
      Replaced classes (argumentOf f.parameters values) line
        (template.substitute (indices.filterMap fun index => values[index]?))
  | _, _ => False

def CompiledTo (classes : CharClasses) (compiler : Compiler Action SyntaxError) (parameters : List Text) :
    BodyLine → MacroEntry Action → Prop
  | .command line, .plain action => compiler.compile line = .ok action
  | .templateLine line, .template template indices => StringTemplate.parse classes line = .ok template ∧
      List.Forall₂ (fun index argumentName => parameters[index]? = some argumentName) indices template.variableNames
  | _, _ => False

section
variable {classes : CharClasses} {compiler : Compiler Action SyntaxError}

theorem getElem?_of_front {parameters parameters' : List Text} (h : parameters <+: parameters') {index : Nat} {v : Text}
    (hv : parameters[index]? = some v) : parameters'[index]? = some v := by
  obtain ⟨rest, rfl⟩ := h
  have hlt : index < parameters.length := (List.getElem?_eq_some_iff.mp hv).1
  rw [List.getElem?_append_left hlt]
  exact hv

theorem CompiledTo.mono {parameters parameters' : List Text} (h : parameters <+: parameters') {line : BodyLine}
    {entry : MacroEntry Action} (hc : CompiledTo classes compiler parameters line entry) :
    CompiledTo classes compiler parameters' line entry := by
  cases line with
  | command line => cases entry <;> exact hc
  | templateLine line =>
    cases entry with
    | plain action => exact hc
    | template template indices => exact ⟨hc.1, hc.2.imp fun _ _ hv => getElem?_of_front h hv⟩

theorem argumentIndex_spec (arguments : List Text) (argumentName : Text) :
    arguments <+: (BodyBuilder.argumentIndex arguments argumentName).2 ∧
      (arguments.Nodup → (BodyBuilder.argumentIndex arguments argumentName).2.Nodup) ∧
      (BodyBuilder.argumentIndex arguments argumentName).2[(BodyBuilder.argumentIndex arguments argumentName).1]? =
        some argumentName := by
  unfold BodyBuilder.argumentIndex
  cases h : arguments.idxOf? argumentName with
  | some index =>
    obtain ⟨hlt, hget, _⟩ := List.idxOf?_eq_some_iff.mp h
    exact ⟨List.prefix_refl _, id, by simp [hlt, hget]⟩
  | none =>
    have hfresh : argumentName ∉ arguments := List.idxOf?_eq_none_iff.mp h
    refine ⟨List.prefix_append _ _, ?_, by simp⟩
    intro hnodup
    rw [List.nodup_append]
    refine ⟨hnodup, by simp, ?_⟩
    intro a ha b hb heq
    rw [List.mem_singleton.mp hb] at heq
    exact hfresh (heq ▸ ha)

theorem argumentIndices_spec (names : List Text) : ∀ arguments : List Text,
    arguments <+: (BodyBuilder.argumentIndices arguments names).2 ∧
      (arguments.Nodup → (BodyBuilder.argumentIndices arguments names).2.Nodup) ∧
      List.Forall₂ (fun index v => (BodyBuilder.argumentIndices arguments names).2[index]? = some v)
        (BodyBuilder.argumentIndices arguments names).1 names := by
  induction names with
  | nil =>
    intro arguments
    exact ⟨List.prefix_refl _, id, .nil⟩
  | cons v names ih =>
    intro arguments
    obtain ⟨hfront, hnodup, hget⟩ := argumentIndex_spec arguments v
    obtain ⟨hfront', hnodup', hall⟩ := ih (BodyBuilder.argumentIndex arguments v).2
    exact ⟨hfront.trans hfront', fun h => hnodup' (hnodup h), .cons (getElem?_of_front hfront' hget) hall⟩

/-- The builder's entries are those of the lines so far. -/
structure Built (classes : CharClasses) (compiler : Compiler Action SyntaxError) (body : List BodyLine)
    (b : BodyBuilder Action) : Prop where
  entries : List.Forall₂ (CompiledTo classes compiler b.macroArguments) body b.entries
  nodup : b.macroArguments.Nodup

theorem built_new : Built classes compiler [] (BodyBuilder.new : BodyBuilder Action) :=
  ⟨.nil, List.nodup_nil⟩

theorem forall₂_snoc {α β : Type} {R : α → β → Prop} {as : List α} {bs : List β} (h : List.Forall₂ R as bs) {a : α}
    {b : β} (hab : R a b) : List.Forall₂ R (as ++ [a]) (bs ++ [b]) := by
  induction h with
  | nil => exact .cons hab .nil
  | cons h _ ih => exact .cons h ih

theorem Built.addCommand {body : List BodyLine} {b : BodyBuilder Action} (h : Built classes compiler body b)
    {line : Text} {action : Action} (hc : compiler.compile line = .ok action) :
    Built classes compiler (body ++ [.command line]) (b.addCommand action) := by
  have hentries : (b.addCommand action).entries = b.entries ++ [.plain action] := by
    unfold BodyBuilder.addCommand BodyBuilder.entries
    cases b.plain with
    | none => rfl
    | some plain => simp
  have harguments : (b.addCommand action).macroArguments = b.macroArguments := by
    unfold BodyBuilder.addCommand
    cases b.plain <;> rfl
  refine ⟨?_, harguments ▸ h.nodup⟩
  rw [hentries, harguments]
  exact forall₂_snoc h.entries hc

theorem Built.addMacro {body : List BodyLine} {b b' : BodyBuilder Action} (h : Built classes compiler body b)
    {line : Text} {lineNumber : Nat} (hb : b.addMacro classes line lineNumber = .ok b') :
    Built classes compiler (body ++ [.templateLine line]) b' := by
  unfold BodyBuilder.addMacro at hb
  cases hparse : StringTemplate.parse classes line with
  | error error =>
    rw [hparse] at hb
    cases hb
  | ok template =>
    rw [hparse] at hb
    cases hb
    obtain ⟨hfront, hnodup, hall⟩ := argumentIndices_spec template.variableNames b.macroArguments
    refine ⟨?_, hnodup h.nodup⟩
    exact forall₂_snoc (h.entries.imp fun _ _ hc => hc.mono hfront) ⟨hparse, hall⟩

theorem Built.addLine {body : List BodyLine} {b b' : BodyBuilder Action} (h : Built classes compiler body b)
    {line : Nat × Except FunctionParseError Text} (hb : addLine classes compiler b line = .ok b') :
    Built classes compiler (body ++ (lineOf classes line).toList) b' := by
  obtain ⟨lineNumber, line⟩ := line
  cases line with
  | error error => cases hb
  | ok joined =>
    simp only [Macro.addLine] at hb
    simp only [lineOf]
    split at hb
    · rename_i htrim
      cases hb
      rw [htrim]
      simpa [classify] using h
    · rename_i htrim
      cases hb
      rw [htrim]
      simpa [classify] using h
    · cases hb
    · rename_i line htrim
      rw [htrim]
      exact h.addMacro hb
    · rename_i c rest hslash hhash hdollar htrim
      rw [htrim]
      have hclass : classify (c :: rest) = some (.command (c :: rest)) := by
        unfold classify
        split <;> simp_all
      rw [hclass]
      split at hb
      · rename_i action haction
        cases hb
        exact h.addCommand haction
      · cases hb

theorem Built.foldlM (lines : List (Nat × Except FunctionParseError Text)) : ∀ {body : List BodyLine}
    {b b' : BodyBuilder Action}, Built classes compiler body b →
      lines.foldlM (Macro.addLine classes compiler) b = .ok b' →
        Built classes compiler (body ++ lines.filterMap (lineOf classes)) b' := by
  induction lines with
  | nil =>
    intro body b b' h hb
    cases hb
    simpa using h
  | cons line lines ih =>
    intro body b b' h hb
    rw [List.foldlM_cons] at hb
    cases hline : Macro.addLine classes compiler b line with
    | error error =>
      rw [hline] at hb
      cases hb
    | ok b₁ =>
      rw [hline] at hb
      have hrest := ih (h.addLine hline) hb
      rw [List.filterMap_cons]
      cases hof : lineOf classes line with
      | none => simpa [hof] using hrest
      | some l => simpa [hof] using hrest

theorem substitutions_eq {parameters values : List Text} (hnodup : parameters.Nodup)
    (hlength : values.length = parameters.length) {indices : List Nat} {names : List Text}
    (h : List.Forall₂ (fun index v => parameters[index]? = some v) indices names) :
    (indices.filterMap fun index => values[index]?) = names.map (argumentOf parameters values) := by
  have hkeys : KeyedEntries.NoDuplicates (parameters.zip values) := by
    unfold KeyedEntries.NoDuplicates
    rwa [List.map_fst_zip (by omega)]
  induction h with
  | nil => rfl
  | @cons index v indices names hv _ ih =>
    obtain ⟨hlt, hget⟩ := List.getElem?_eq_some_iff.mp hv
    have hvalue : values[index]? = some values[index] := List.getElem?_eq_getElem (by omega)
    have hmem : (v, values[index]) ∈ parameters.zip values := by
      rw [List.mem_iff_getElem]
      exact ⟨index, by simp; omega, by simp [hget]⟩
    have hlookup := KeyedEntries.lookup_of_mem hkeys hmem
    rw [List.filterMap_cons, hvalue, ih, List.map_cons, argumentOf, hlookup]
    rfl

theorem Built.expands {body : List BodyLine} {b : BodyBuilder Action} (h : Built classes compiler body b)
    (hplain : b.plain = none) : List.Forall₂ (Expands classes compiler
      { parameters := b.macroArguments, entries := b.macroEntries, cache := [] }) body b.macroEntries := by
  have hentries := h.entries
  rw [BodyBuilder.entries, hplain] at hentries
  apply hentries.imp
  intro line entry hc
  cases line with
  | command line => cases entry <;> exact hc
  | templateLine line =>
    cases entry with
    | plain action => exact hc
    | template template indices =>
      obtain ⟨hparse, hindices⟩ := hc
      intro values hlength
      rw [substitutions_eq h.nodup hlength hindices]
      exact substitute_replaced hparse _

theorem parseBody_expands {lines : List Text} {f : MacroFunction Action}
    (h : parseBody classes compiler lines = .ok (.macroFunction f)) :
    f.cache = [] ∧ List.Forall₂ (Expands classes compiler f) (bodyLines classes lines) f.entries := by
  unfold parseBody at h
  split at h
  · cases h
  · rename_i b hb
    have hbuilt := built_new.foldlM _ hb
    rw [List.nil_append] at hbuilt
    have hbody := (Except.ok.inj h)
    unfold BodyBuilder.build at hbody
    cases hplain : b.plain with
    | some plain =>
      rw [hplain] at hbody
      cases hbody
    | none =>
      rw [hplain] at hbody
      cases hbody
      exact ⟨rfl, hbuilt.expands hplain⟩

end

/-! ## The cache -/

section
variable (writer : Writer) (compiler : Compiler Action SyntaxError)

theorem compileEntry_id {id : Text} (id' : Text) {values : List Text} {entry : MacroEntry Action} {action : Action}
    (h : compileEntry compiler id values entry = .ok action) : compileEntry compiler id' values entry = .ok action := by
  cases entry with
  | plain a => exact h
  | template template parameters =>
    simp only [compileEntry] at h ⊢
    cases hok : compiler.compile (template.substitute (parameters.filterMap fun index => values[index]?)) with
    | ok a =>
      rw [hok] at h
      exact h
    | error error =>
      rw [hok] at h
      cases h

theorem mapM_compileEntry_id {id : Text} (id' : Text) {values : List Text} (entries : List (MacroEntry Action)) :
    ∀ {actions : List Action}, entries.mapM (compileEntry compiler id values) = .ok actions →
      entries.mapM (compileEntry compiler id' values) = .ok actions := by
  induction entries with
  | nil =>
    intro actions h
    exact h
  | cons entry entries ih =>
    intro actions h
    rw [List.mapM_cons] at h ⊢
    obtain ⟨action, haction, hrest⟩ := bind_eq_ok.mp h
    obtain ⟨rest, hmap, hpure⟩ := bind_eq_ok.mp hrest
    rw [compileEntry_id compiler id' haction]
    exact bind_eq_ok.mpr ⟨action, rfl, bind_eq_ok.mpr ⟨rest, ih hmap, hpure⟩⟩

namespace MacroFunction

/-- What the entries give for a list of values. -/
def compiled (entries : List (MacroEntry Action)) (values : List Text) : Option (List Action) :=
  match entries.mapM (compileEntry compiler [] values) with
  | .ok actions => some actions
  | .error _ => none

theorem compiled_iff (entries : List (MacroEntry Action)) (id : Text) (values : List Text) (actions : List Action) :
    compiled compiler entries values = some actions ↔ entries.mapM (compileEntry compiler id values) = .ok actions := by
  have hid := @mapM_compileEntry_id Action SyntaxError compiler
  unfold compiled
  constructor
  · intro h
    split at h
    · rename_i hok
      cases h
      exact hid id entries hok
    · cases h
  · intro h
    rw [hid [] entries h]

/-- Same lines and parameters, and a cache of true results. -/
structure Keeps (f g : MacroFunction Action) : Prop where
  parameters : g.parameters = f.parameters
  entries : g.entries = f.entries
  cache : Memo.Sound (compiled compiler f.entries) g.cache

theorem Keeps.instantiate {f g : MacroFunction Action} (h : Keeps compiler f g) (hf : f.cache = []) (id : Text)
    (arguments : Option (List (Text × Snbt.NbtTag))) :
    (g.instantiate writer compiler id arguments).1 = (f.instantiate writer compiler id arguments).1 ∧
      Keeps compiler f (g.instantiate writer compiler id arguments).2 := by
  unfold MacroFunction.instantiate
  cases arguments with
  | none => exact ⟨rfl, h⟩
  | some arguments =>
    simp only [h.parameters, h.entries]
    cases readValues writer id arguments f.parameters with
    | error error => exact ⟨rfl, h⟩
    | ok values =>
      have hmiss : Memo.find f.cache values = none := by rw [hf]; rfl
      simp only [hmiss]
      cases hfind : Memo.find g.cache values with
      | some found =>
        obtain ⟨cached, cache⟩ := found
        obtain ⟨hcompiled, hcache⟩ := h.cache.find hfind
        rw [compiled_iff compiler f.entries id] at hcompiled
        simp only [hcompiled]
        exact ⟨trivial, rfl, rfl, hcache⟩
      | none =>
        cases hcompiled : f.entries.mapM (compileEntry compiler id values) with
        | error error => exact ⟨rfl, h⟩
        | ok instantiated =>
          have hsound := (compiled_iff compiler f.entries id values instantiated).mpr hcompiled
          exact ⟨rfl, rfl, rfl, h.cache.store maxCacheEntries hsound⟩

theorem keeps_afterCalls {f : MacroFunction Action} (hf : f.cache = [])
    (calls : List (Text × Option (List (Text × Snbt.NbtTag)))) :
    Keeps compiler f (f.afterCalls writer compiler calls) := by
  induction calls using List.reverseRecOn with
  | nil => exact ⟨rfl, rfl, hf ▸ Memo.sound_nil⟩
  | append_singleton calls call ih =>
    rw [afterCalls, List.foldl_append]
    exact (ih.instantiate writer compiler hf call.1 call.2).2

end MacroFunction

end

/-- Letters only, and commands compile to themselves. -/
def plainClasses : CharClasses where
  isAlphanumeric c := 'a' ≤ c && c ≤ 'z'
  isWhitespace c := c = ' '
  closing_not_alphanumeric := by decide

def echoCompiler : Compiler Text Text where
  compile line := .ok line
  display error := error

def plainWriter : Writer where
  decimalOfFloat _ := []
  decimalOfDouble _ := []
  canonicalSnbt _ := []

/-- `$say $(a)` as the one line of a file. -/
def sayFunction : MacroFunction Text where
  parameters := [['a']]
  entries := [.template ⟨[['s', 'a', 'y', ' ']], [['a']]⟩ [0]]
  cache := []

end Macro
end Foton
