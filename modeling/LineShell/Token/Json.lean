import LineShell.Json
import LineShell.Token

namespace LineShell

/-! Tokens as JSON. -/

/-- How an operator is called in print. -/
def Operator.name : Operator → Text
  | .and => "And".toList
  | .or => "Or".toList
  | .sequence => "Sequence".toList

/-- How a style of quoting, or the lack of one, is called in print. -/
def Quote.name : Option Quote → Text
  | none => "None".toList
  | some .single => "Single".toList
  | some .double => "Double".toList

def TokenKind.json : TokenKind → Json.Value
  | .word => Json.string "Word".toList
  | .brokenOperator => Json.string "PartialAction".toList
  | .operator joint => Json.object [("Action".toList, Json.string joint.name)]

def Span.json (span : Span) : Json.Value :=
  Json.object
    [("start".toList, Json.number span.start), ("end".toList, Json.number span.stop)]

namespace Token

def json (token : Token) : Json.Value :=
  Json.object
    [("kind".toList, token.kind.json),
      ("content".toList, Json.string token.content),
      ("raw_content".toList, Json.string token.raw),
      ("quote".toList, Json.string (Quote.name token.quote)),
      ("terminated".toList, Json.boolean token.terminated),
      ("span".toList, token.span.json)]

def document (tokens : List Token) : Text := Json.array (tokens.map json) 0

end Token

end LineShell
