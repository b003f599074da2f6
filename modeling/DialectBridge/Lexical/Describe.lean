import DialectBridge.Lexical.Token
import DialectBridge.Text.Quoted

/-!
# Tokens in diagnostics

The way a token is named in the message of a failed reading: its kind, with what it carries in
parentheses.
-/

namespace DialectBridge

/-- The name of a token for a diagnostic. -/
def TokenKind.describe : TokenKind → Text
  | number text => "Number(" ++ text.quoted ++ ")"
  | string value => "String(" ++ value.quoted ++ ")"
  | identifier name => "Identifier(" ++ name.quoted ++ ")"
  | quoted name => "QuotedIdentifier(" ++ name.quoted ++ ")"
  | keyword word => "Keyword(" ++ word.title ++ ")"
  | leftParen => "LeftParen"
  | rightParen => "RightParen"
  | comma => "Comma"
  | semicolon => "Semicolon"
  | dot => "Dot"
  | percent => "Percent"
  | assign => "Assign"
  | symbol c => "Symbol(" ++ Text.quotedChar c ++ ")"
  | eof => "Eof"
  | error cause => "Error(" ++ cause.message.quoted ++ ")"

end DialectBridge
