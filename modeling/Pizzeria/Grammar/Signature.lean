import Pizzeria.Token.Basic

/-!
# Signatures

A signature is the shape of a statement: one slot for each of its tokens.

## Main Definitions

* `Slot`, `Slot.accepts`, `Slot.overlaps` — what may stand at one place, and whether
  two slots accept a common token.
* `Signature`, `Signature.accepts`, `Signature.overlaps` — the same for whole
  statements, place by place and at equal length.
* `Signature.render` — the written form.
-/

namespace Pizzeria

/-- What may stand at one place of a statement. -/
inductive Slot where
  /-- Any token of a kind. -/
  | kind (kind : Token.Kind)
  /-- One keyword. -/
  | word (word : Keyword)
  /-- A reference to an order: an integer, a string or a pizza. -/
  | specifier
  deriving DecidableEq, Repr

/-- The kinds of token that refer to an order. -/
def Token.Kind.isSpecifier : Token.Kind → Bool
  | string | integer | pizza => true
  | _ => false

namespace Slot

/-- The token may stand in the slot. -/
def accepts (slot : Slot) (t : Token) : Bool :=
  match slot with
  | kind k => t.kind == k
  | word w => t.isKeyword w
  | specifier => t.kind.isSpecifier

/-- Some token may stand in both slots. -/
def overlaps : Slot → Slot → Bool
  | word a, word b => a == b
  | word _, kind k | kind k, word _ => k == .keyword
  | kind a, kind b => a == b
  | specifier, specifier => true
  | specifier, kind k | kind k, specifier => k.isSpecifier
  | specifier, word _ | word _, specifier => false

/-- The written form: a keyword as it is, anything else in angle brackets. -/
def render : Slot → Text
  | kind k => '<' :: k.name ++ ">"
  | word w => w.spelling
  | specifier => "<pizza specifier>"

end Slot

/-- The shape of a statement. -/
abbrev Signature := List Slot

namespace Signature

/-- The tokens fill the slots, one for each. -/
def accepts : Signature → List Token → Bool
  | [], [] => true
  | slot :: slots, t :: ts => slot.accepts t && accepts slots ts
  | _, _ => false

/-- Some tokens fill the slots of both. -/
def overlaps : Signature → Signature → Bool
  | [], [] => true
  | a :: as, b :: bs => a.overlaps b && overlaps as bs
  | _, _ => false

/-- The slots as they would be written in a program. -/
def render (s : Signature) : Text := Text.join " " (s.map Slot.render)

end Signature

end Pizzeria
