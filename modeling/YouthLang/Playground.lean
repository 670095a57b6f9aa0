import YouthLang.History.Entry
import YouthLang.Number.Word
import YouthLang.Playground.Target
import YouthLang.Text.Json
import YouthLang.Text.Json.Datum

/-!
# Playground — sessions for many visitors

Every connection has a session of its own, so what one visitor declares no other sees.  The connections
share only the count that nodes draw their numbers from.  A source that is too long is refused and
changes nothing.

A frame that is no request, or is too long, ends its connection.
-/

namespace YouthLang

/-- The answer to a request. -/
structure Response where
  output : List Text := []
  errors : List Text := []
  hadStaticError : Bool := false
  hadRuntimeError : Bool := false
  /-- Why nothing ran, empty if something did. -/
  refusal : Text := []
deriving DecidableEq, Repr

namespace Response

/-- The answer for a finished run. -/
def ofRun (r : Run) : Response :=
  ⟨r.output, r.mistakeTexts, r.wasRejected, r.hasFailed, []⟩

/-- The answer to a source that is too long. -/
def tooLong (size : Nat) (limit : Int) : Response :=
  { refusal := "source is " ++ Text.ofNat size ++ " bytes, limit is " ++ Text.ofInt limit }

end Response

/-! ## Frames -/

/-- A frame's key in the form that keys are compared in: lower case, with the long s as an `s`. -/
def foldedKey (key : Text) : List Glyph :=
  key.glyphs.map fun g =>
    match g with
    | .char c =>
      if 'A' ≤ c && c ≤ 'Z' then .char (Char.ofNat (c.toNat + 32))
      else if c.toNat = 0x17F then .char 's'
      else g
    | .stray _ => g

/-- The source of a request after one more member: a text replaces it, a null leaves it, and any other
value makes the request invalid. -/
def sourceAfter (source : Text) (member : Text × Json.Datum) : Option Text :=
  if foldedKey member.1 = Text.glyphs "source" then
    match member.2 with
    | .text t => some t
    | .null => some source
    | _ => none
  else some source

/-- The source that a frame asks to run, `none` if the frame is no request. -/
def sourceOfFrame? (frame : Text) : Option Text :=
  match Json.read? frame with
  | some .null => some []
  | some (.object members) => members.foldlM sourceAfter []
  | _ => none

/-- The frame that asks to run a source. -/
def requestFrame (source : Text) : Text :=
  Text.line ("\x7b\"source\":" ++ Json.string source ++ "\x7d")

/-! ## Connections -/

/-- Whether a message of some bytes is longer than a read limit, as the library that reads the messages
has it: it takes a limit that is not positive for none. -/
def ReadLimit.exceeds (limit : Int64) (bytes : Nat) : Bool := 0 < limit && limit.toInt < bytes

/-- The open connections with their sessions, by number. -/
structure Playground where
  /-- The most bytes of a source. -/
  limit : Int64
  clock : Clock
  /-- How the library that reads the frames holds them against its read limit. -/
  exceeds : Int64 → Nat → Bool := ReadLimit.exceeds
  /-- The number of the last node when the playground is opened. -/
  node : Nat := 0
  /-- The number of the next connection. -/
  next : Nat := 0
  connections : List (Nat × Session) := []

namespace Playground

variable (p : Playground)

/-- The session of a connection. -/
def session? (id : Nat) : Option Session := p.connections.lookup id

/-- The number of open connections. -/
def clients : Nat := p.connections.length

/-- A new connection and its number. -/
def connect : Playground × Nat :=
  ({ p with
      next := p.next + 1
      connections := p.connections ++ [(p.next, .fresh [] p.node p.clock)] }, p.next)

/-- A connection closed. -/
def disconnect (id : Nat) : Playground :=
  { p with connections := p.connections.filter (·.1 ≠ id) }

/-- What comes of a source on a connection: the answer, and the run to be recorded. -/
structure Served where
  playground : Playground
  source : Text
  response : Response
  ran : Option HistoryEntry := none

/-- A source run on a connection; `none` if the connection is closed.  The session draws on behind its
own numbers, past all that `others` have drawn since or draw meanwhile. -/
def request (fuel : Nat) (id : Nat) (source : Text) (others : List Nat := []) : Option Served :=
  (p.session? id).map fun s =>
    if p.limit.toInt < source.length then ⟨p, source, .tooLong source.length p.limit.toInt, none⟩
    else
      let (s', r) := s.run fuel source others
      let connections := p.connections.map fun (i, t) => if i = id then (i, s') else (i, t)
      { playground := { p with connections := connections }
        source := source
        response := .ofRun r
        ran := some (.ofRun "playground" source r) }

/-- The read limit of a connection: the escapes in a frame take room too.  A large limit of the sources
wraps around here. -/
def frameLimit : Int64 := p.limit * 2 + 1024

/-- Whether a frame is over the read limit. -/
def isTooLong (frame : Text) : Bool := p.exceeds p.frameLimit frame.length

/-- A frame that arrives on a connection: a request is answered, anything else closes the connection,
and so does a frame that is too long. -/
def receive (fuel : Nat) (id : Nat) (frame : Text) (others : List Nat := []) :
    Playground × Option Served :=
  if p.isTooLong frame then (p.disconnect id, none)
  else match sourceOfFrame? frame with
    | none => (p.disconnect id, none)
    | some source =>
      match p.request fuel id source others with
      | none => (p, none)
      | some served => (served.playground, some served)

/-! ## Pages -/

/-- A page: its status and its body. -/
structure Page where
  status : Nat
  body : Text
deriving DecidableEq, Repr

/-- The page that tells how many connections are open. -/
def health : Page :=
  ⟨200, "\x7b\"clients\":" ++ Text.ofNat p.clients ++ ",\"status\":\"ok\"\x7d\n"⟩

/-- A byte as the content of a page. -/
def contentByte (b : UInt8) : Text :=
  match b with
  | 0x22 => "&#34;"
  | 0x26 => "&amp;"
  | 0x27 => "&#39;"
  | 0x3C => "&lt;"
  | 0x3E => "&gt;"
  | _ => [b]

/-- The page that sends a visitor to another path. -/
def moved (method target : Text) : Page :=
  ⟨307, if method = "GET" then
      "<a href=\"" ++ target.flatMap contentByte ++ "\">Temporary Redirect</a>.\n\n"
    else []⟩

/-- The names of the pages: the connections' own and the one that tells about them. -/
def runName : Text := "run"

@[inherit_doc runName]
def healthName : Text := "healthz"

/-- The page with a name.  A visitor without a connection of the right kind cannot run anything. -/
def namedPage (method : Text) (name : Option Text) : Page :=
  if name = some runName || name = some healthName then
    if method ≠ "GET" && method ≠ "HEAD" then ⟨405, "Method Not Allowed\n"⟩
    else if name = some runName then ⟨400, "Bad Request\n"⟩
    else p.health
  else ⟨404, "404 page not found\n"⟩

/-- The page for a method and what a visitor asks for.  A path that is not the shortest one for its
page leads to that one, except for a visitor who wants a tunnel. -/
def page (method target : Text) : Page :=
  let method : Text := if method = [] then "GET" else method
  match Target.ofText? target with
  | none => ⟨400, []⟩
  | some t =>
    let short := Target.cleanPath t.path
    if short ≠ t.path && method ≠ "CONNECT" then moved method (t.withPath short)
    else p.namedPage method t.name?

end Playground

end YouthLang
