/-
  File:      GrammarMatch/Action.lean
  Subject:   Callbacks that run when a rule has matched.

  A callback gets the text and the capture of its rule, with the values of
  the rules inside already attached, and answers with a value or raises. A
  failure of the library's own that it raises goes through unchanged; any
  other exception becomes a failure of the action.
-/
import GrammarMatch.Capture
import GrammarMatch.Text.Integer

namespace GrammarMatch

/-! ## 1. Callbacks -/

/-- What a callback can raise. -/
inductive CallbackError where
  | failure (f : Failure)
  | raised (r : Raised)

/-- A callback. -/
abbrev Callback := Text → Capture → Except CallbackError Datum

/-- What is offered as a callback: it may be no function at all. -/
inductive Offer where
  | callback (f : Callback)
  | other

/-- Callbacks by the names of their rules, each rule at most once. -/
structure Actions where
  callbacks : List (String × Callback) := []

namespace Actions

/-- The callback of a rule. -/
def find? (a : Actions) (rule : String) : Option Callback := a.callbacks.lookup rule

/-- Whether a rule has a callback. -/
def hasAction (a : Actions) (rule : String) : Bool := (a.find? rule).isSome

/-- Set the callback of a rule. -/
def register (a : Actions) (rule : String) : Offer → Except Failure Actions
  | .callback f => .ok ⟨(rule, f) :: a.callbacks.filter (fun e => e.1 != rule)⟩
  | .other => .error (.notCallable rule)

/-- Set callbacks one after the other. -/
def registerAll (a : Actions) : List (String × Offer) → Except Failure Actions
  | [] => .ok a
  | (rule, offer) :: rest =>
    match a.register rule offer with
    | .error f => .error f
    | .ok a => a.registerAll rest

/-- Names that methods of actions have for other reasons. -/
def reserved : List String := ["register", "has_action", "invoke"]

/-- Methods as callbacks: private and reserved names are none, nor is what is
    no function. -/
def ofMethods : List (String × Offer) → Actions
  | [] => {}
  | (name, offer) :: rest =>
    let later := ofMethods rest
    if name.startsWith "_" || reserved.contains name then later
    else match offer with
      | .callback f => if later.hasAction name then later else ⟨(name, f) :: later.callbacks⟩
      | .other => later

/-- Actions from methods and from callbacks, which take precedence. -/
def make (methods callbacks : List (String × Offer)) : Except Failure Actions :=
  (ofMethods methods).registerAll callbacks

/-- Run the callback of a rule on its capture, if it has one: the capture
    with the value attached. -/
def invoke (a : Actions) (source : Text) (rule : String) (c : Capture) :
    Except Failure Capture :=
  match a.find? rule with
  | none => .ok c
  | some callback =>
    match callback source c with
    | .ok value => .ok (c.make value)
    | .error (.failure f) => .error f
    | .error (.raised r) => .error (.actionFailed rule r)

end Actions

/-! ## 2. Common callbacks -/

namespace Callback

/-- The text covered. -/
def text : Callback := fun source c => .ok (.string (c.text source))

/-- The number of characters covered. -/
def length : Callback := fun _ c => .ok (.int c.length)

/-- Always the same value. -/
def constant (value : Datum) : Callback := fun _ _ => .ok value

/-- The span covered. -/
def span : Callback := fun _ c => .ok (.tuple [.int c.label.start, .int c.label.stop])

/-- The values of the captures inside. -/
def childValues : Callback := fun source c => .ok (.list (c.children.map (·.value source)))

/-- An exception in the words of a failure. -/
def raise (kind : String) (f : Failure) : Except CallbackError α :=
  .error (.raised ⟨kind, f.message⟩)

/-- The plain texts of the values of the captures inside, with a separator
    between them. -/
def join (separator : String) : Callback := fun source c =>
  let values := c.children.map (·.value source)
  if Datum.areWritable values then .ok (.string (separator.intercalate (values.map Datum.plain)))
  else raise "ValueError" .longInteger

/-- At most so many characters of a text are repeated in the message that it
    is no integer. -/
def shownChars : Nat := 200

/-- The message about a text that is no integer. -/
def integerMessage (s : List Char) : Integer.Refusal → String
  | .malformed => "invalid literal for int() with base 10: " ++
      String.ofList ((Quoted.chars s).take shownChars)
  | .tooLong digits =>
    s!"Exceeds the limit ({Integer.maxDigits} digits) for integer string conversion: " ++
      s!"value has {digits} digits; use sys.set_int_max_str_digits() to increase the limit"

/-- The integer that is covered. -/
def integer : Callback := fun source c =>
  match Integer.read (c.chars source) with
  | .ok n => .ok (.int n)
  | .error r => .error (.raised ⟨"ValueError", integerMessage (c.chars source) r⟩)

/-- A sum that goes on with one more value. -/
def addTo (sum value : Datum) : Except CallbackError Datum :=
  match sum.add value with
  | .ok total => .ok total
  | .error .noNumber => .error (.raised ⟨"TypeError",
      s!"unsupported operand type(s) for +: '{sum.typeName}' and '{value.typeName}'"⟩)
  | .error .tooLarge => .error (.raised ⟨"OverflowError", "int too large to convert to float"⟩)

/-- The sum of the values attached to the captures under a key. -/
def total (key : CaptureKey) : Callback := fun _ c =>
  (((c.get? key).map Capture.Binding.toList).getD []).foldlM (fun sum k => addTo sum k.made)
    (.int 0)

/-- Always an exception. -/
def raising (kind message : String) : Callback := fun _ _ => .error (.raised ⟨kind, message⟩)

/-- Always a failure. -/
def failing (f : Failure) : Callback := fun _ _ => .error (.failure f)

end Callback

end GrammarMatch
