import TaggedGrammar.Yaml.Lexing
import TaggedGrammar.Yaml.Nesting

/-!
# The data of a document text

`datum` reads a text as data. Every scalar is a text, whatever it looks like, and the value that
is not written is the empty text. A key is a text, an alias repeats a node that is complete, and
a text holds one document.

## Implementation notes

The first fault counts, in the order in which the tokens are looked at.
-/

namespace TaggedGrammar.Yaml

/-- Whether a token is a directive. -/
def directive? : Token → Option Directive
  | .directive d => some d
  | _ => none

/-- Whether a token begins, ends or precedes a document. -/
def isOutside : Token → Bool
  | .directive _ => true
  | .documentStart => true
  | .documentEnd => true
  | _ => false

/-- The version that a directive asks for. -/
def Directive.version? : Directive → Option Nat
  | .version n => some n
  | _ => none

/-- The handle that a directive introduces. -/
def Directive.handle? : Directive → Option String
  | .handle s => some s
  | _ => none

/-- Whether directives may stand together: one version at most, which begins with 1, and each
handle once. -/
def areCompatible (ds : List Directive) : Bool :=
  let versions := ds.filterMap Directive.version?
  versions.length ≤ 1 && versions.all (· == 1) && decide (ds.filterMap Directive.handle?).Nodup

/-- The directives in front of other tokens, which must be compatible, and those tokens. -/
def splitDirectives (ts : List Token) : Except Fault (List Directive × List Token) :=
  let ds := (ts.takeWhile fun t => (directive? t).isSome).filterMap directive?
  if areCompatible ds then .ok (ds, ts.drop ds.length) else .error .malformed

/-- Makes sure that no second document stands behind the first. -/
def expectEnd (ts : List Token) : Except Fault Unit :=
  match ts.dropWhile (· == .documentEnd) with
  | [] => .ok ()
  | behind =>
    match splitDirectives behind with
    | .ok (_, .fault e :: _) => .error e
    | _ => .error .malformed

/-- The data of a document given by its tokens behind those that announce it. A document
without content is the empty text. -/
def contentDatum (handles : List String) (ts : List Token) : Except Fault Datum := do
  let content := ts.takeWhile fun t => !isOutside t
  let last ← content.foldlM Nesting.take (Nesting.initial handles)
  let s ← orMalformed last.finish?
  expectEnd (ts.drop content.length)
  if s.sound then return s.root.getD (.text "") else .error .malformed

/-- The data of a document given by its tokens. A text without tokens has no value. Directives
must be followed by the mark that begins a document. -/
def documentDatum (ts : List Token) : Except Fault Datum :=
  match splitDirectives ts with
  | .error e => .error e
  | .ok (ds, .documentStart :: rest) => contentDatum (ds.filterMap Directive.handle?) rest
  | .ok (_, .fault e :: _) => .error e
  | .ok (_, .documentEnd :: _) => .error .malformed
  | .ok ([], []) => .ok .null
  | .ok ([], body) => contentDatum [] body
  | .ok (_, _) => .error .malformed

/-- The data of a document text. -/
def datum (text : String) : Except Fault Datum := documentDatum (tokens text)

end TaggedGrammar.Yaml
