import SettingsScan.Yaml.Lexer
import SettingsScan.Yaml.Node

/-! # YAML documents

A text is read as one document. What is wrong with the text comes in two parts: errors within the
document show in its nodes, and anything that follows it shows in a flag.
-/

namespace SettingsScan.Yaml

structure Document where
  root : Node
  /-- Whether nothing but the end of the text follows. -/
  isLast : Bool
  deriving Repr

namespace Document

/-- The handles that need no directive. -/
def standardHandles : List (Text × Text) :=
  [("!", "!"), ("!!", "tag:yaml.org,2002:")]

/-- Whether a version of the format can be read. -/
def knowsVersion (major minor : Nat) : Bool :=
  major = 1 && (minor = 1 || minor = 2)

/-- Reads the directives in front of a document: there may be one version and one prefix for each
handle. -/
def directives (hasVersion : Bool) (handles : List (Text × Text)) :
    List Token → Option (List (Text × Text) × List Token)
  | .versionDirective major minor :: more =>
    if hasVersion || !knowsVersion major minor then none else directives true handles more
  | .tagDirective handle start :: more =>
    if (handles.lookup handle).isSome then none
    else directives hasVersion ((handle, start) :: handles) more
  | tokens => some (handles, tokens)

/-- The tokens which leave a document without content. -/
def endsEmpty : Token → Bool
  | .versionDirective .. => true
  | .tagDirective .. => true
  | .documentStart => true
  | .documentEnd => true
  | .streamEnd => true
  | _ => false

/-- Whether nothing follows a document but its end. -/
def atStreamEnd (tokens : List Token) : Bool :=
  tokens.dropWhile (· = .documentEnd) = [.streamEnd]

/-- Reads the content of a document. -/
def body (handles : List (Text × Text)) (tokens : List Token) : Document :=
  let read := Reading.node true false (5 * tokens.length + 5)
  let (root, reader) := read.run { rest := tokens, handles := handles ++ standardHandles }
  { root, isLast := atStreamEnd reader.rest }

def brokenDocument : Document := { root := .broken, isLast := false }

/-- Reads the first document, without which the text is broken. -/
def ofTokens (tokens : List Token) : Document :=
  match tokens with
  | [] => brokenDocument
  | .streamEnd :: _ => brokenDocument
  | first :: _ =>
    match directives false [] tokens with
    | none => brokenDocument
    | some (handles, .documentStart :: more) =>
      match more with
      | next :: _ => if endsEmpty next then { root := .blank, isLast := atStreamEnd more }
          else body handles more
      | [] => brokenDocument
    | some _ =>
      match first with
      | .versionDirective .. => brokenDocument
      | .tagDirective .. => brokenDocument
      | _ => body [] tokens

/-- Reads a text in UTF-8, all of whose characters must be allowed. -/
def ofBytes (bytes : Bytes) : Document :=
  match Encoding.ofUtf8? bytes with
  | some text => if text.all isAllowed then ofTokens (Token.ofText text) else brokenDocument
  | none => brokenDocument

end Document

end SettingsScan.Yaml
