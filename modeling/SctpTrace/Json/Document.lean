import SctpTrace.Json.Token

/-!
JSON documents. Members of a record keep their order and may repeat; what a repetition means is for
the reader to say. Reading runs over the tokens once, with a stack of the containers still open, so
that no depth of nesting is too much for it.
-/
namespace SctpTrace.Json

abbrev Key := Option String

inductive Document where
  | null
  | bool (value : Bool)
  | number (value : Numeral)
  | text (value : Option String)
  | list (items : List Document)
  | record (members : List (Key × Document))
  deriving Repr

inductive Container where
  | list (items : List Document)
  | record (members : List (Key × Document)) (key : Key)

inductive Expectation where
  | value
  | itemOrEnd
  | memberOrEnd
  | member (members : List (Key × Document))
  | colon (members : List (Key × Document)) (key : Key)
  | complete (value : Document)

structure Reading where
  stack : List Container
  expected : Expectation

namespace Reading

def start : Reading := ⟨[], .value⟩

def scalar? : Token → Option Document
  | .null => some .null
  | .bool b => some (.bool b)
  | .number n => some (.number n)
  | .text t => some (.text t)
  | _ => none

def value? (stack : List Container) : Token → Option Reading
  | .openList => some ⟨.list [] :: stack, .itemOrEnd⟩
  | .openRecord => some ⟨stack, .memberOrEnd⟩
  | t => (scalar? t).map fun d => ⟨stack, .complete d⟩

def member? (stack : List Container) (members : List (Key × Document)) : Token → Option Reading
  | .text key => some ⟨stack, .colon members key⟩
  | _ => none

def complete? (value : Document) : List Container → Token → Option Reading
  | .list items :: stack, .comma => some ⟨.list (value :: items) :: stack, .value⟩
  | .list items :: stack, .closeList =>
    some ⟨stack, .complete (.list (value :: items).reverse)⟩
  | .record members key :: stack, .comma => some ⟨stack, .member ((key, value) :: members)⟩
  | .record members key :: stack, .closeRecord =>
    some ⟨stack, .complete (.record ((key, value) :: members).reverse)⟩
  | _, _ => none

def step (r : Reading) (t : Token) : Option Reading :=
  match r.expected with
  | .value => value? r.stack t
  | .itemOrEnd =>
    match t, r.stack with
    | .closeList, .list [] :: stack => some ⟨stack, .complete (.list [])⟩
    | _, _ => value? r.stack t
  | .memberOrEnd =>
    match t with
    | .closeRecord => some ⟨r.stack, .complete (.record [])⟩
    | _ => member? r.stack [] t
  | .member members => member? r.stack members t
  | .colon members key =>
    match t with
    | .colon => some ⟨.record members key :: r.stack, .value⟩
    | _ => none
  | .complete value => complete? value r.stack t

def document? (r : Reading) : Option Document :=
  match r.stack, r.expected with
  | [], .complete value => some value
  | _, _ => none

end Reading

namespace Document

def ofTokens? (tokens : List Token) : Option Document :=
  (tokens.foldlM Reading.step Reading.start).bind (·.document?)

def ofText? (text : String) : Option Document := (tokens? text.toList).bind ofTokens?

end Document

/-- How many containers are open at once at most, in tokens read so far and to come. -/
def nestingFrom (deepest current : Nat) : List Token → Nat
  | [] => deepest
  | .openList :: rest => nestingFrom (max deepest (current + 1)) (current + 1) rest
  | .openRecord :: rest => nestingFrom (max deepest (current + 1)) (current + 1) rest
  | .closeList :: rest => nestingFrom deepest (current - 1) rest
  | .closeRecord :: rest => nestingFrom deepest (current - 1) rest
  | _ :: rest => nestingFrom deepest current rest

def nesting (tokens : List Token) : Nat := nestingFrom 0 0 tokens

end SctpTrace.Json
