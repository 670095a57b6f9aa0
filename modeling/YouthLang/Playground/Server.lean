import YouthLang.Playground
import YouthLang.Recorder

/-!
# Playground/Server — what happens at a playground

Visitors connect, send frames and leave, in any order and as many as there are.  Every run is handed to
the recorder before it is answered; what the recorder makes of it changes nothing for the visitors.

Frames may be served at the same time.  What they share is the count that nodes draw their numbers from,
so a frame comes with how many numbers others draw before each of its own.
-/

namespace YouthLang

/-- What happens at a playground. -/
inductive Event where
  | connect
  | disconnect (id : Nat)
  /-- A frame arrives on a connection. -/
  | frame (id : Nat) (frame : Text) (others : List Nat)
deriving DecidableEq, Repr

/-- A request and its answer. -/
structure Exchange where
  /-- The number of the connection. -/
  id : Nat
  source : Text
  response : Response
  /-- Why the run could not be recorded. -/
  problem : Option Text := none
deriving DecidableEq, Repr

/-- A playground and the state of its recorder. -/
structure Server (σ : Type) where
  playground : Playground
  recorded : σ

namespace Server

variable {σ : Type} (fuel : Nat) (record : Recorder σ)

/-- A server that nobody has visited; its nodes are numbered behind those of the rest of the program. -/
def opened (exceeds : Int64 → Nat → Bool) (limit : Int64) (clock : Clock) (node : Nat) (recorded : σ) :
    Server σ :=
  ⟨{ limit := limit, clock := clock, exceeds := exceeds, node := node }, recorded⟩

/-- A request answered, its run recorded first if it ran. -/
def answer (recorded : σ) (id : Nat) (served : Playground.Served) : Server σ × Exchange :=
  match served.ran with
  | none => (⟨served.playground, recorded⟩, ⟨id, served.source, served.response, none⟩)
  | some entry =>
    let (recorded, problem) := record recorded entry
    (⟨served.playground, recorded⟩, ⟨id, served.source, served.response, problem⟩)

/-- What an event does, and the request that it answers. -/
def step (s : Server σ) : Event → Server σ × Option Exchange
  | .connect => ({ s with playground := s.playground.connect.1 }, none)
  | .disconnect id => ({ s with playground := s.playground.disconnect id }, none)
  | .frame id frame others =>
    match s.playground.receive fuel id frame others with
    | (playground, none) => ({ s with playground := playground }, none)
    | (_, some served) =>
      ((answer record s.recorded id served).1, some (answer record s.recorded id served).2)

/-- What events do one after the other, and the requests that they answer. -/
def serve (s : Server σ) : List Event → Server σ × List Exchange
  | [] => (s, [])
  | event :: rest =>
    let (s', exchange) := s.step fuel record event
    let (s'', exchanges) := serve s' rest
    (s'', exchange.toList ++ exchanges)

end Server

end YouthLang
