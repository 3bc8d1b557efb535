import Stepwise.Json

/-!
# The tracing service

The service has two routes: one traces either dialect, the other one only the braced dialect. There
are also pages about the service, which can only be read. The service answers with the events, which
must be writable in strict JSON, so without NaNs, infinities and surrogates on their own. Variables
whose names have the mark of internal state are not shown.
-/

namespace Stepwise.Service

/-- A field of a request: a text, or anything else. -/
inductive Field
  | text (s : String)
  | other

/-- A request with its body. -/
structure Request where
  path : String
  /-- The fields of the body, nothing if it is no object. -/
  fields : Option (List (String × Field))

/-- What the service answers. -/
inductive Response
  | ok (events : List Event)
  | notFound
  | notAllowed
  | invalid
  | failed

def Response.status : Response → Nat
  | ok _ => 200
  | notFound => 404
  | notAllowed => 405
  | invalid => 422
  | failed => 500

/-- Names that begin with this mark belong to internal state. -/
def internalMark : List Char := ['_', 's', 'a']

/-- The entries whose names do not begin with the internal mark. -/
def publicTable (t : Table Datum) : Table Datum :=
  ⟨t.entries.filter fun (name, _) => !internalMark.isPrefixOf name.toList⟩

/-- The event as the service shows it. -/
def publicEvent : Event → Event
  | .step s =>
    .step
      { s with
        bindings := publicTable s.bindings
        callStack := s.callStack.map fun f => { f with args := publicTable f.args } }
  | .overrun fault => .overrun fault

/-- The text can be written in strict JSON. -/
def isStrictText (t : Text) : Bool := t.all fun p => !p.isSurrogate

mutual

/-- The value can be written in strict JSON. -/
def isStrict : Datum → Bool
  | .float x => x.isFinite
  | .complex _ _ => false
  | .int n => (intText n).toBool
  | .str s => isStrictText s
  | .list items => areStrict items
  | _ => true

/-- All values of a list can be written in strict JSON. -/
def areStrict : List Datum → Bool
  | [] => true
  | d :: rest => isStrict d && areStrict rest

end

/-- All values of a table can be written in strict JSON. -/
def isStrictTable (t : Table Datum) : Bool := t.entries.all fun (_, d) => isStrict d

/-- All texts and values of an event can be written in strict JSON. -/
def isStrictEvent : Event → Bool
  | .step s =>
    isStrictText s.explanation && s.output.all isStrictText && isStrictTable s.bindings &&
      s.callStack.all fun f => isStrictTable f.args
  | .overrun _ => true

/-- The dialect that a request asks for, the indented one if it does not say. -/
def requestedDialect (fields : List (String × Field)) : Option Dialect :=
  match fields.lookup "language" with
  | none => some .indented
  | some (.text s) => Dialect.ofText? s
  | some .other => none

/-- The source to be traced, if the field for it is a text. -/
def requestedCode (fields : List (String × Field)) : Option String :=
  match fields.lookup "code" with
  | some (.text s) => some s
  | _ => none

/-- What is found at a path. -/
inductive Route
  /-- Trace the dialect that the fields ask for. -/
  | trace (dialect : List (String × Field) → Option Dialect)
  /-- A page that can only be read. -/
  | page

/-- What a path leads to. Slashes at its end do not matter. -/
def route? (path : String) : Option Route :=
  match String.ofList (path.toList.reverse.dropWhile (· == '/')).reverse with
  | "/trace" => some (.trace requestedDialect)
  | "/trace-c" => some (.trace fun _ => some .braced)
  | "/docs" | "/docs/oauth2-redirect" | "/redoc" | "/openapi.json" => some .page
  | _ => none

/-- Trace a program with the limits that the environment sets. -/
def answer (env : List (String × String)) (dialect : Dialect) (code : String) :
    Response × List String :=
  let traced := traceEventsIn env dialect code
  let response := match traced.result with
    | .ok events =>
      let shown := events.map publicEvent
      if shown.all isStrictEvent then .ok shown else .failed
    | .error _ => .failed
  (response, traced.warnings)

/-- Answer a request. The warnings given on the way are the second part. -/
def respond (env : List (String × String)) (request : Request) : Response × List String :=
  match route? request.path, request.fields with
  | none, _ => (.notFound, [])
  | some .page, _ => (.notAllowed, [])
  | some (.trace _), none => (.invalid, [])
  | some (.trace dialectOf), some fields =>
    match requestedCode fields, dialectOf fields with
    | some code, some dialect => answer env dialect code
    | _, _ => (.invalid, [])

end Stepwise.Service
