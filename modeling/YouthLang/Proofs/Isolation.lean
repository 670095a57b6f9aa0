import YouthLang.Playground.Server
import YouthLang.Proofs.Numbering

/-!
# Proofs/Isolation — visitors do not see each other

Whatever happens at a playground, a connection is answered as a session that nobody else uses: it is
asked for the sources in its frames up to the first frame that closes it (`requestsIn`), and it runs
those that are short enough (`Playground.Serves`).  Its nodes are numbered among those of others, which
a session does not see (`Session.runAmong_eq_runAll`).  `visitors_isolated` says so of all connections,
and that the recorder is handed every run once, in the order of the runs.

A frame that is too long closes its connection without an answer, so a source can be too long to be
refused (`long_frame_unanswered`).  The read limit of the frames is computed in 64 bits and wraps around
(`toInt_frameLimit`); that a positive one is kept is all that is asked of the library that reads them
(`KeepsReadLimit`).
-/

namespace YouthLang

/-! ## What a connection is asked for

The frames of one connection are picked out of all events, up to the one that closes it. -/

/-- The frames that arrive on a connection from its connect on until it is closed by its visitor, when
some connections have been made before. -/
def framesOn (id : Nat) (made : Nat) : List Event → List Text
  | [] => []
  | .connect :: rest => framesOn id (made + 1) rest
  | .disconnect i :: rest => if i = id ∧ id < made then [] else framesOn id made rest
  | .frame i frame _ :: rest =>
    if i = id ∧ id < made then frame :: framesOn id made rest else framesOn id made rest

/-- The library that reads the frames keeps a read limit: a message is over a positive one exactly if it
has more bytes.  Nothing is said of a limit that is not positive. -/
def KeepsReadLimit (exceeds : Int64 → Nat → Bool) : Prop :=
  ∀ (limit : Int64) (bytes : Nat), 0 < limit → (exceeds limit bytes = true ↔ limit.toInt < bytes)

/-- Twice the limit of the sources and 1024 bytes, as 64 bits hold it. -/
def readLimit (limit : Int64) : Int := (2 * limit.toInt + 1024).bmod (2 ^ 64)

/-- Whether a frame of some bytes is too long where sources have a limit: it has more bytes than the read
limit, if that is positive, and otherwise whatever the library makes of such a read limit. -/
def isPastLimit (exceeds : Int64 → Nat → Bool) (limit : Int64) (bytes : Nat) : Bool :=
  if 0 < readLimit limit then readLimit limit < bytes else exceeds (readLimit limit) bytes

/-- The source that a frame asks to run, where sources have a limit; nothing if the frame is no request
or too long. -/
def requested? (exceeds : Int64 → Nat → Bool) (limit : Int64) (frame : Text) : Option Text :=
  if isPastLimit exceeds limit frame.length then none else sourceOfFrame? frame

/-- The sources that frames ask to run, up to the first frame that is no request. -/
def requestsIn (exceeds : Int64 → Nat → Bool) (limit : Int64) : List Text → List Text
  | [] => []
  | frame :: rest =>
    (requested? exceeds limit frame).elim [] fun source => source :: requestsIn exceeds limit rest

/-- Whether a source is short enough to run. -/
def fits (limit : Int64) (source : Text) : Bool := source.length ≤ limit.toInt

/-- The entry that is recorded for a request that ran. -/
def Exchange.entry (e : Exchange) : HistoryEntry :=
  { origin := "playground"
    source := e.source
    output := Text.join [Text.newline] e.response.output
    hadStaticError := e.response.hadStaticError
    hadRuntimeError := e.response.hadRuntimeError
    errorText := Text.join [Text.newline] e.response.errors }

/-! ## Connections

The sessions are kept in a list under the numbers of their connections, which are given out once. -/

section Lookup

variable {α : Type} (l : List (Nat × α)) (i id : Nat)

/-- A pair in front is found first. -/
theorem lookup_cons_ite (j : Nat) (x : α) :
    ((j, x) :: l).lookup id = if id = j then some x else l.lookup id := by
  by_cases h : id = j
  · simp [h]
  · rw [List.lookup_cons, beq_eq_false_iff_ne.mpr h, if_neg h]

/-- A key that is filtered out is no longer found, and all others are. -/
theorem lookup_filter_ne :
    (l.filter fun c => c.1 ≠ i).lookup id = if id = i then none else l.lookup id := by
  induction l with
  | nil => simp
  | cons c rest ih =>
    obtain ⟨j, x⟩ := c
    by_cases hj : j = i
    · rw [List.filter_cons_of_neg (by simp [hj]), ih, lookup_cons_ite, hj]
      split <;> rfl
    · rw [List.filter_cons_of_pos (by simp [hj]), lookup_cons_ite, lookup_cons_ite, ih]
      by_cases hid : id = j
      · simp [hid, hj]
      · simp [hid]

/-- A value that is replaced is found under its key alone. -/
theorem lookup_map_set (x : α) : (l.map fun (j, y) => if j = i then (j, x) else (j, y)).lookup id
    = if id = i then (l.lookup id).map fun _ => x else l.lookup id := by
  induction l with
  | nil => simp
  | cons c rest ih =>
    obtain ⟨j, y⟩ := c
    have hhead : (if j = i then (j, x) else (j, y)) = (j, if j = i then x else y) := by split <;> rfl
    simp only [List.map_cons, hhead, lookup_cons_ite, ih]
    by_cases hid : id = j
    · by_cases hj : j = i <;> simp [hid, hj]
    · simp [hid]

end Lookup

namespace Playground

variable {p : Playground} {id i : Nat} {fuel : Nat} {others : List Nat} {source frame : Text}
  {t : Session}

/-- A playground whose connections have been made, above a library that keeps read limits. -/
structure Formed (p : Playground) : Prop where
  made : ∀ id t, p.session? id = some t → id < p.next
  keeps : KeepsReadLimit p.exceeds

/-- A new connection gets a fresh session and leaves the others theirs. -/
theorem session?_connect (hp : p.Formed) : p.connect.1.session? id
    = if id = p.next then some (.fresh [] p.node p.clock) else p.session? id := by
  have hnone : p.session? p.next = none := by
    cases h : p.session? p.next with
    | none => rfl
    | some t => exact absurd (hp.made _ t h) (Nat.lt_irrefl _)
  simp only [session?] at hnone
  simp only [connect, session?, List.lookup_append, lookup_cons_ite, List.lookup_nil]
  by_cases hid : id = p.next
  · simp [hid, hnone]
  · simp [hid]

/-- A connection that is closed loses its session alone. -/
theorem session?_disconnect :
    (p.disconnect i).session? id = if id = i then none else p.session? id :=
  lookup_filter_ne _ _ _

/-- The playground after a source has run on a connection. -/
def afterRun (p : Playground) (fuel : Nat) (i : Nat) (t : Session) (source : Text)
    (others : List Nat) : Playground :=
  let t' := (t.run fuel source others).1
  { p with connections := p.connections.map fun (j, u) => if j = i then (j, t') else (j, u) }

/-- A run changes the session of its own connection. -/
theorem session?_afterRun : (p.afterRun fuel i t source others).session? id
    = if id = i then (p.session? id).map fun _ => (t.run fuel source others).1
      else p.session? id :=
  lookup_map_set _ _ _ _

/-- Numbers of connections stay below the next one. -/
theorem Formed.connect (hp : p.Formed) : p.connect.1.Formed where
  made id t h := by
    rw [session?_connect hp] at h
    split at h
    · next hid => exact hid ▸ Nat.lt_succ_self _
    · exact Nat.lt_succ_of_lt (hp.made _ _ h)
  keeps := hp.keeps

/-- They do when one of them goes. -/
theorem Formed.disconnect (hp : p.Formed) : (p.disconnect i).Formed where
  made id t h := by
    rw [session?_disconnect] at h
    split at h
    · exact absurd h (by simp)
    · exact hp.made _ _ h
  keeps := hp.keeps

/-- They do when one of them runs. -/
theorem Formed.afterRun (hp : p.Formed) : (p.afterRun fuel i t source others).Formed where
  made id u h := by
    rw [session?_afterRun] at h
    split at h
    · obtain ⟨v, hv, rfl⟩ := Option.map_eq_some_iff.mp h
      exact hp.made _ _ hv
    · exact hp.made _ _ h
  keeps := hp.keeps

/-! ## Requests -/

/-- The read limit is twice the limit of the sources and 1024 bytes, up to the width of a word. -/
theorem toInt_frameLimit : p.frameLimit.toInt = readLimit p.limit := by
  have htwo : (2 : Int64).toInt = 2 := rfl
  have hmore : (1024 : Int64).toInt = 1024 := rfl
  rw [frameLimit, Int64.toInt_add, Int64.toInt_mul, htwo, hmore, Int.bmod_add_bmod, readLimit,
    Int.mul_comm]

/-- With a large limit of the sources the read limit is small. -/
example : frameLimit { limit := 9223372036854775807, clock := ⟨0, []⟩ } = 1022 := by decide

/-- A library that keeps its read limit closes on exactly the frames past it. -/
theorem isTooLong_eq (hkeeps : KeepsReadLimit p.exceeds) :
    p.isTooLong frame = isPastLimit p.exceeds p.limit frame.length := by
  rw [isTooLong, isPastLimit]
  by_cases hpos : 0 < readLimit p.limit
  · have hlimit : (0 : Int64) < p.frameLimit := by
      rw [Int64.lt_iff_toInt_lt, toInt_frameLimit]
      exact hpos
    rw [if_pos hpos, Bool.eq_iff_iff, hkeeps _ _ hlimit, toInt_frameLimit, decide_eq_true_iff]
  · rw [if_neg hpos, ← toInt_frameLimit, Int64.ofInt_toInt]

/-- A frame that asks for nothing closes its connection, unanswered. -/
theorem receive_of_requested?_eq_none (hkeeps : KeepsReadLimit p.exceeds)
    (h : requested? p.exceeds p.limit frame = none) :
    p.receive fuel i frame others = (p.disconnect i, none) := by
  rw [requested?, ← isTooLong_eq hkeeps] at h
  by_cases hlong : p.isTooLong frame = true
  · simp [receive, hlong]
  · rw [if_neg hlong] at h
    simp [receive, hlong, h]

/-- A frame that asks for a source has it served. -/
theorem receive_of_requested?_eq_some (hkeeps : KeepsReadLimit p.exceeds)
    (h : requested? p.exceeds p.limit frame = some source) :
    p.receive fuel i frame others = (p.request fuel i source others).elim (p, none) fun served =>
      (served.playground, some served) := by
  rw [requested?, ← isTooLong_eq hkeeps] at h
  split at h
  · exact absurd h (by simp)
  · next hshort =>
    simp only [receive, hshort, h]
    cases p.request fuel i source others <;> rfl

/-- Nobody asks on a closed connection. -/
theorem request_of_closed (h : p.session? i = none) : p.request fuel i source others = none := by
  simp [request, h]

/-- A source over the limit is refused, with its length and the limit, and nothing is run. -/
theorem request_of_not_fits (h : p.session? i = some t) (hfits : fits p.limit source = false) :
    p.request fuel i source others
      = some ⟨p, source, .tooLong source.length p.limit.toInt, none⟩ := by
  have hlong : p.limit.toInt < source.length := by simpa [fits] using hfits
  simp [request, h, hlong]

/-- A source within the limit is run in the session of its connection and recorded. -/
theorem request_of_fits (h : p.session? i = some t) (hfits : fits p.limit source) :
    p.request fuel i source others = some ⟨p.afterRun fuel i t source others, source,
      .ofRun (t.run fuel source others).2,
      some (.ofRun "playground" source (t.run fuel source others).2)⟩ := by
  have hshort : ¬ p.limit.toInt < source.length := by simpa [fits] using hfits
  simp [request, h, hshort, afterRun]

/-! ## A connection alone

What a connection exchanges is told by recursion on what it is asked for, with a session that nobody
else uses. -/

/-- A session answers sources one after the other: it refuses one that does not fit and runs every
other, whatever numbers others take before its nodes. -/
inductive Serves (fuel : Nat) (limit : Int64) : Session → List Text → List Exchange → Prop
  | nil {t : Session} : Serves fuel limit t [] []
  | refused {t : Session} {source : Text} {asked : List Text} {e : Exchange} {rest : List Exchange}
      (hfits : fits limit source = false) (hsource : e.source = source)
      (hresponse : e.response = .tooLong source.length limit.toInt)
      (hrest : Serves fuel limit t asked rest) :
      Serves fuel limit t (source :: asked) (e :: rest)
  | ran {t : Session} {others : List Nat} {source : Text} {asked : List Text} {e : Exchange}
      {rest : List Exchange} (hfits : fits limit source) (hsource : e.source = source)
      (hresponse : e.response = .ofRun (t.run fuel source others).2)
      (hrest : Serves fuel limit (t.run fuel source others).1 asked rest) :
      Serves fuel limit t (source :: asked) (e :: rest)

section Serves

variable {limit : Int64} {asked : List Text} {exchanges : List Exchange}

/-- What is exchanged is what was asked, in order. -/
theorem Serves.sources (h : Serves fuel limit t asked exchanges) :
    exchanges.map Exchange.source = asked := by
  induction h with
  | nil => rfl
  | refused _ hsource _ _ ih => rw [List.map_cons, hsource, ih]
  | ran _ hsource _ _ ih => rw [List.map_cons, hsource, ih]

/-- Sources over the limit are answered by their refusal. -/
theorem Serves.refusals (h : Serves fuel limit t asked exchanges) :
    ∀ e ∈ exchanges, fits limit e.source = false →
      e.response = .tooLong e.source.length limit.toInt := by
  induction h with
  | nil => simp
  | refused hfits hsource hresponse _ ih =>
    intro e he
    rcases List.mem_cons.mp he with rfl | he
    · exact fun _ => hsource ▸ hresponse
    · exact ih e he
  | ran hfits hsource _ _ ih =>
    intro e he
    rcases List.mem_cons.mp he with rfl | he
    · intro hno
      rw [hsource, hfits] at hno
      exact absurd hno (by simp)
    · exact ih e he

/-- The sources that fit run one after another, the others leave no trace. -/
theorem Serves.runAmong (h : Serves fuel limit t asked exchanges) :
    ∃ sources, sources.map Prod.snd = asked.filter (fits limit)
      ∧ (exchanges.filter fun e => fits limit e.source).map Exchange.response
        = (t.runAmong fuel sources).map Response.ofRun := by
  induction h with
  | nil => exact ⟨[], rfl, rfl⟩
  | refused hfits hsource _ _ ih =>
    obtain ⟨sources, hasked, hresponses⟩ := ih
    refine ⟨sources, ?_, ?_⟩
    · rw [List.filter_cons_of_neg (by simp [hfits]), hasked]
    · rw [List.filter_cons_of_neg (by simp [hsource, hfits]), hresponses]
  | @ran t others source asked e rest hfits hsource hresponse _ ih =>
    obtain ⟨sources, hasked, hresponses⟩ := ih
    refine ⟨(others, source) :: sources, ?_, ?_⟩
    · rw [List.filter_cons_of_pos hfits, List.map_cons, hasked]
    · rw [List.filter_cons_of_pos (by rw [hsource, hfits]), List.map_cons, hresponse, hresponses]
      rfl

end Serves

end Playground

/-! ## All connections

By induction on the events: an event of another connection leaves the session and the limit as they
are. -/

namespace Server

open Playground

variable {σ : Type} {fuel : Nat} {record : Recorder σ} {others : List Nat} {id : Nat}

/-- The requests that are answered on a connection. -/
def exchangesOn (id : Nat) (exchanges : List Exchange) : List Exchange :=
  exchanges.filter fun e => e.id = id

/-- What a frame does to the playground, told by what it asks for. -/
inductive Receives (fuel : Nat) (p : Playground) (i : Nat) (frame : Text) :
    Playground → Option Exchange → Prop
  | closing (hframe : requested? p.exceeds p.limit frame = none) :
      Receives fuel p i frame (p.disconnect i) none
  | closed {source : Text} (hframe : requested? p.exceeds p.limit frame = some source)
      (hsession : p.session? i = none) : Receives fuel p i frame p none
  | refused {source : Text} {t : Session} {e : Exchange}
      (hframe : requested? p.exceeds p.limit frame = some source) (hsession : p.session? i = some t)
      (hfits : fits p.limit source = false) (hid : e.id = i) (hsource : e.source = source)
      (hresponse : e.response = .tooLong source.length p.limit.toInt) :
      Receives fuel p i frame p (some e)
  | ran {source : Text} {others : List Nat} {t : Session} {e : Exchange}
      (hframe : requested? p.exceeds p.limit frame = some source) (hsession : p.session? i = some t)
      (hfits : fits p.limit source) (hid : e.id = i) (hsource : e.source = source)
      (hresponse : e.response = .ofRun (t.run fuel source others).2) :
      Receives fuel p i frame (p.afterRun fuel i t source others) (some e)

/-- The recorder is handed a request exactly if it ran. -/
def recordedAfter (record : Recorder σ) (limit : Int64) (recorded : σ) (exchange : Option Exchange) : σ :=
  record.after recorded ((exchange.toList.filter fun e => fits limit e.source).map Exchange.entry)

/-- A frame is received by its own connection, and the recorder sees it afterwards. -/
theorem step_frame {s : Server σ} (hp : s.playground.Formed) (i : Nat) (frame : Text)
    (others : List Nat) :
    Receives fuel s.playground i frame (s.step fuel record (.frame i frame others)).1.playground
        (s.step fuel record (.frame i frame others)).2
      ∧ (s.step fuel record (.frame i frame others)).1.recorded = recordedAfter record
        s.playground.limit s.recorded (s.step fuel record (.frame i frame others)).2 := by
  obtain ⟨p, recorded⟩ := s
  simp only [step]
  cases hframe : requested? p.exceeds p.limit frame with
  | none =>
    rw [receive_of_requested?_eq_none hp.keeps hframe]
    exact ⟨.closing hframe, rfl⟩
  | some source =>
    rw [receive_of_requested?_eq_some hp.keeps hframe]
    cases hsession : p.session? i with
    | none =>
      rw [request_of_closed hsession]
      exact ⟨.closed hframe hsession, rfl⟩
    | some t =>
      by_cases hfits : fits p.limit source = true
      · rw [request_of_fits hsession hfits]
        refine ⟨.ran hframe hsession hfits rfl rfl rfl, ?_⟩
        simp [answer, recordedAfter, hfits, Exchange.entry, HistoryEntry.ofRun, Response.ofRun]
      · rw [Bool.not_eq_true] at hfits
        rw [request_of_not_fits hsession hfits]
        refine ⟨.refused hframe hsession hfits rfl rfl rfl, ?_⟩
        simp [answer, recordedAfter, hfits]

/-- The exchanges of a connection are picked out part by part. -/
theorem exchangesOn_append (es fs : List Exchange) :
    exchangesOn id (es ++ fs) = exchangesOn id es ++ exchangesOn id fs := List.filter_append ..

/-- They are those of the first event and those of the rest. -/
theorem serve_cons (s : Server σ) (event : Event) (rest : List Event) :
    exchangesOn id (s.serve fuel record (event :: rest)).2
      = exchangesOn id (s.step fuel record event).2.toList
        ++ exchangesOn id ((s.step fuel record event).1.serve fuel record rest).2 :=
  exchangesOn_append ..

section Receives

variable {p p' : Playground} {i : Nat} {frame : Text} {exchange : Option Exchange}

/-- Whatever a frame does, numbers of connections stay below the next one. -/
theorem Receives.formed (h : Receives fuel p i frame p' exchange) (hp : p.Formed) : p'.Formed := by
  cases h with
  | closing => exact hp.disconnect
  | closed => exact hp
  | refused => exact hp
  | ran => exact hp.afterRun

/-- A frame opens no connection and leaves what was set up at the start. -/
theorem Receives.setting (h : Receives fuel p i frame p' exchange) :
    p'.limit = p.limit ∧ p'.exceeds = p.exceeds ∧ p'.next = p.next ∧ p'.clock = p.clock
      ∧ p'.node = p.node := by
  cases h <;> exact ⟨rfl, rfl, rfl, rfl, rfl⟩

/-- A frame on another connection is nothing to a session. -/
theorem Receives.other (h : Receives fuel p i frame p' exchange) (hi : i ≠ id) :
    p'.session? id = p.session? id ∧ exchangesOn id exchange.toList = [] := by
  cases h with
  | closing => exact ⟨by rw [session?_disconnect, if_neg hi.symm], rfl⟩
  | closed => exact ⟨rfl, rfl⟩
  | refused _ _ _ hid => exact ⟨rfl, by simp [exchangesOn, hid, hi]⟩
  | ran _ _ _ hid =>
    exact ⟨by rw [session?_afterRun, if_neg hi.symm], by simp [exchangesOn, hid, hi]⟩

/-- A connection that is closed stays so, and no frame on it is answered. -/
theorem Receives.stays_closed (h : Receives fuel p i frame p' exchange)
    (hclosed : p.session? id = none) :
    exchangesOn id exchange.toList = [] ∧ p'.session? id = none := by
  by_cases hi : i = id
  · subst hi
    cases h with
    | closing => exact ⟨rfl, by rw [session?_disconnect, if_pos rfl]⟩
    | closed => exact ⟨rfl, hclosed⟩
    | refused _ hsession => exact absurd (hclosed.symm.trans hsession) (by simp)
    | ran _ hsession => exact absurd (hclosed.symm.trans hsession) (by simp)
  · exact ⟨(h.other hi).2, (h.other hi).1.trans hclosed⟩

/-- An open connection answers a frame on it, and then what it is asked for later, unless the frame
closes it. -/
theorem Receives.serves (h : Receives fuel p i frame p' exchange) {t : Session}
    (hopen : p.session? i = some t) {frames : List Text} {later : List Exchange}
    (hlater : ∀ t', p'.session? i = some t' →
      Serves fuel p.limit t' (requestsIn p.exceeds p.limit frames) later)
    (hgone : p'.session? i = none → later = []) :
    Serves fuel p.limit t (requestsIn p.exceeds p.limit (frame :: frames))
      (exchangesOn i exchange.toList ++ later) := by
  rw [requestsIn]
  cases h with
  | closing hframe =>
    rw [hframe, hgone (by rw [session?_disconnect, if_pos rfl])]
    exact .nil
  | closed _ hsession => exact absurd (hopen.symm.trans hsession) (by simp)
  | refused hframe _ hfits hexchange hsource hresponse =>
    rw [hframe]
    simp only [exchangesOn, Option.toList_some, List.filter_cons, hexchange, decide_true, if_true,
      List.filter_nil, List.singleton_append]
    exact .refused hfits hsource hresponse (hlater t hopen)
  | ran hframe hsession hfits hexchange hsource hresponse =>
    obtain rfl := Option.some.inj (hopen.symm.trans hsession)
    rw [hframe]
    simp only [exchangesOn, Option.toList_some, List.filter_cons, hexchange, decide_true, if_true,
      List.filter_nil, List.singleton_append]
    refine .ran hfits hsource hresponse (hlater _ ?_)
    rw [session?_afterRun, if_pos rfl, hopen]
    rfl

end Receives

/-- A connection that is closed is never answered. -/
theorem exchangesOn_of_closed : ∀ (events : List Event) {s : Server σ}, s.playground.Formed →
    id < s.playground.next → s.playground.session? id = none →
      exchangesOn id (s.serve fuel record events).2 = []
  | [], _, _, _, _ => rfl
  | event :: rest, s, hp, hid, hclosed => by
      rw [serve_cons]
      cases event with
      | connect =>
        refine exchangesOn_of_closed rest hp.connect (Nat.lt_succ_of_lt hid) ?_
        rw [step, session?_connect hp, if_neg (Nat.ne_of_lt hid), hclosed]
      | disconnect i =>
        refine exchangesOn_of_closed rest hp.disconnect hid ?_
        rw [step, session?_disconnect, hclosed, ite_self]
      | frame i frame others =>
        obtain ⟨hreceives, -⟩ := @step_frame _ fuel record s hp i frame others
        have hp' := hreceives.formed hp
        obtain ⟨-, -, hnext, -⟩ := hreceives.setting
        obtain ⟨hunanswered, hstays⟩ := hreceives.stays_closed hclosed
        rw [hunanswered, List.nil_append]
        exact exchangesOn_of_closed rest hp' (hnext ▸ hid) hstays

/-- An open connection answers what it is asked for. -/
theorem serves_of_open : ∀ (events : List Event) {s : Server σ} {t : Session}, s.playground.Formed →
    s.playground.session? id = some t →
      Serves fuel s.playground.limit t
        (requestsIn s.playground.exceeds s.playground.limit
          (framesOn id s.playground.next events))
        (exchangesOn id (s.serve fuel record events).2)
  | [], _, _, _, _ => .nil
  | event :: rest, s, t, hp, hopen => by
      have hid : id < s.playground.next := hp.made id t hopen
      rw [serve_cons]
      cases event with
      | connect =>
        refine serves_of_open rest (s := (s.step fuel record .connect).1) hp.connect ?_
        rw [step, session?_connect hp, if_neg (Nat.ne_of_lt hid), hopen]
      | disconnect i =>
        by_cases hi : i = id
        · have hgone : exchangesOn id ((s.step fuel record (.disconnect i)).1.serve fuel record rest).2
              = [] := exchangesOn_of_closed rest hp.disconnect hid (by
                rw [step, session?_disconnect, if_pos hi.symm])
          rw [hgone, framesOn, if_pos ⟨hi, hid⟩]
          exact .nil
        · rw [framesOn, if_neg fun h => hi h.1]
          refine serves_of_open rest (s := (s.step fuel record (.disconnect i)).1) hp.disconnect ?_
          rw [step, session?_disconnect, if_neg (Ne.symm hi), hopen]
      | frame i frame others =>
        obtain ⟨hreceives, -⟩ := @step_frame _ fuel record s hp i frame others
        have hp' := hreceives.formed hp
        obtain ⟨hlimit, hexceeds, hnext, -⟩ := hreceives.setting
        have ih := fun t' h =>
          serves_of_open rest (s := (s.step fuel record (.frame i frame others)).1) (t := t') hp' h
        have hgone := @exchangesOn_of_closed _ fuel record id rest
          (s.step fuel record (.frame i frame others)).1 hp'
        rw [hlimit, hexceeds, hnext] at ih
        rw [hnext] at hgone
        by_cases hi : i = id
        · subst hi
          rw [framesOn, if_pos ⟨rfl, hid⟩]
          exact hreceives.serves hopen ih (hgone hid)
        · obtain ⟨hsession, hnone⟩ := hreceives.other hi
          rw [framesOn, if_neg fun h => hi h.1, hnone]
          exact ih t (hsession.trans hopen)

/-- So does one that is still to be made: then its session is fresh. -/
theorem serves_of_unmade : ∀ (events : List Event) {s : Server σ}, s.playground.Formed →
    s.playground.next ≤ id →
      Serves fuel s.playground.limit (.fresh [] s.playground.node s.playground.clock)
        (requestsIn s.playground.exceeds s.playground.limit
          (framesOn id s.playground.next events))
        (exchangesOn id (s.serve fuel record events).2)
  | [], _, _, _ => .nil
  | event :: rest, s, hp, hid => by
      have hclosed : s.playground.session? id = none := by
        cases h : s.playground.session? id with
        | none => rfl
        | some t => exact absurd (hp.made id t h) (Nat.not_lt.mpr hid)
      rw [serve_cons]
      cases event with
      | connect =>
        rcases Nat.eq_or_lt_of_le hid with hnow | hlater
        · refine serves_of_open rest (s := (s.step fuel record .connect).1) hp.connect ?_
          rw [step, session?_connect hp, if_pos hnow.symm]
        · exact serves_of_unmade rest (s := (s.step fuel record .connect).1) hp.connect hlater
      | disconnect i =>
        rw [framesOn, if_neg fun h => Nat.not_lt.mpr hid h.2]
        exact serves_of_unmade rest (s := (s.step fuel record (.disconnect i)).1) hp.disconnect hid
      | frame i frame others =>
        obtain ⟨hreceives, -⟩ := @step_frame _ fuel record s hp i frame others
        obtain ⟨hlimit, hexceeds, hnext, hclock, hnode⟩ := hreceives.setting
        have hnone : exchangesOn id (s.step fuel record (.frame i frame others)).2.toList = [] :=
          (hreceives.stays_closed hclosed).1
        have ih := serves_of_unmade rest (s := (s.step fuel record (.frame i frame others)).1)
          (hreceives.formed hp) (hnext ▸ hid)
        rw [hlimit, hexceeds, hnext, hclock, hnode] at ih
        rwa [framesOn, if_neg fun h => Nat.not_lt.mpr hid h.2, hnone]

/-- The recorder is handed what ran, in order. -/
theorem recorded_serve : ∀ (events : List Event) {s : Server σ}, s.playground.Formed →
    (s.serve fuel record events).1.recorded = record.after s.recorded
      (((s.serve fuel record events).2.filter fun e => fits s.playground.limit e.source).map
        Exchange.entry)
  | [], _, _ => rfl
  | event :: rest, s, hp => by
      have hstep : (s.step fuel record event).1.recorded = recordedAfter record s.playground.limit
            s.recorded (s.step fuel record event).2
          ∧ (s.step fuel record event).1.playground.limit = s.playground.limit
          ∧ (s.step fuel record event).1.playground.Formed := by
        cases event with
        | connect => exact ⟨rfl, rfl, hp.connect⟩
        | disconnect i => exact ⟨rfl, rfl, hp.disconnect⟩
        | frame i frame others =>
          obtain ⟨hreceives, hrecorded⟩ := @step_frame _ fuel record s hp i frame others
          exact ⟨hrecorded, hreceives.setting.1, hreceives.formed hp⟩
      have ih := recorded_serve rest hstep.2.2
      rw [hstep.1, hstep.2.1] at ih
      change ((s.step fuel record event).1.serve fuel record rest).1.recorded
        = record.after s.recorded ((((s.step fuel record event).2.toList
          ++ ((s.step fuel record event).1.serve fuel record rest).2).filter _).map _)
      rw [ih, recordedAfter, List.filter_append, List.map_append, Recorder.after_append]

/-- A connection is answered as a fresh session would be that nobody else uses: every request has one
answer, the sources that fit run one after another, and every other is refused. -/
structure AnsweredAlone (fuel : Nat) (limit : Int64) (clock : Clock) (asked : List Text)
    (exchanges : List Exchange) : Prop where
  sources : exchanges.map Exchange.source = asked
  runs : (exchanges.filter fun e => fits limit e.source).map Exchange.response
    = ((Session.fresh [] 0 clock).runAll fuel (asked.filter (fits limit))).map Response.ofRun
  refusals : ∀ e ∈ exchanges, fits limit e.source = false →
    e.response = .tooLong e.source.length limit.toInt ∧ e.response.refusal ≠ []

/-- A connection served from a fresh session is answered as if it were alone. -/
theorem answeredAlone_of_serves {limit : Int64} {node : Nat} {clock : Clock} {asked : List Text}
    {exchanges : List Exchange} (h : Serves fuel limit (.fresh [] node clock) asked exchanges) :
    AnsweredAlone fuel limit clock asked exchanges where
  sources := h.sources
  runs := by
    obtain ⟨sources, hasked, hresponses⟩ := h.runAmong
    rw [hresponses, Session.runAmong_eq_runAll [] node 0 clock, hasked]
  refusals e he hfits := by
    have hwords : Text.ofString "source is " ≠ [] := by decide +kernel
    refine ⟨h.refusals e he hfits, ?_⟩
    rw [h.refusals e he hfits]
    simp [Response.tooLong, hwords]

/-- **Visitors do not see each other.**  Above a library that keeps read limits, whatever visitors do in
any order, wherever the count of nodes starts, whatever numbers others draw while a source is parsed and
whatever the recorder makes of the runs: every connection is answered as if nobody else were there, and
the recorder is handed one entry for every run, in the order of the runs. -/
theorem visitors_isolated {exceeds : Int64 → Nat → Bool} (hkeeps : KeepsReadLimit exceeds)
    (limit : Int64) (clock : Clock) (node fuel : Nat) (record : Recorder σ) (recorded : σ)
    (events : List Event) :
    let served := (opened exceeds limit clock node recorded).serve fuel record events
    (∀ id, AnsweredAlone fuel limit clock (requestsIn exceeds limit (framesOn id 0 events))
        (exchangesOn id served.2))
      ∧ served.1.recorded = record.after recorded
          ((served.2.filter fun e => fits limit e.source).map Exchange.entry) := by
  intro served
  have hformed : (opened exceeds limit clock node recorded).playground.Formed :=
    ⟨fun id t h => absurd h (by simp [opened, session?]), hkeeps⟩
  exact ⟨fun id => answeredAlone_of_serves (serves_of_unmade events hformed (Nat.zero_le _)),
    recorded_serve events hformed⟩

/-- The comparison that the program runs with keeps read limits. -/
theorem keepsReadLimit_exceeds : KeepsReadLimit ReadLimit.exceeds := by
  intro limit bytes hpos
  simp [ReadLimit.exceeds, hpos]

/-- Two visitors come, their sources are parsed at the same time, and the first one asks for more than
may be asked for. -/
def twoVisitors : List Event :=
  [.connect, .connect, .frame 0 (requestFrame "tell \"x\";") [0, 2],
    .frame 1 (requestFrame "tell +;") [1], .frame 0 (requestFrame "tell \"xyzxyz\";") []]

/-- The first visitor is answered, the mistake is the second one's, and the long source is refused. -/
theorem visitors_isolated_twoVisitors :
    KeepsReadLimit ReadLimit.exceeds ∧
    let served := (opened ReadLimit.exceeds 12 ⟨0, []⟩ 7 ()).serve 40 Recorder.absent twoVisitors
    served.2.map (fun e => (e.id, e.response.output, e.response.hadStaticError))
        = [(0, [("x" : Text)], false), (1, [], true), (0, [], false)]
      ∧ AnsweredAlone 40 12 ⟨0, []⟩ ["tell \"x\";", "tell \"xyzxyz\";"] (exchangesOn 0 served.2) := by
  have hasked : requestsIn ReadLimit.exceeds 12 (framesOn 0 0 twoVisitors)
      = [("tell \"x\";" : Text), "tell \"xyzxyz\";"] := by decide +kernel
  refine ⟨keepsReadLimit_exceeds, by decide +kernel, ?_⟩
  rw [← hasked]
  exact (visitors_isolated keepsReadLimit_exceeds 12 ⟨0, []⟩ 7 40 Recorder.absent () twoVisitors).1 0

/-- A source of 1100 bytes is too long for a limit of 10, but the frame that asks for it is too long as
well: it is not answered at all, and the connection is closed. -/
theorem long_frame_unanswered :
    fits 10 (List.replicate 1100 0x78) = false
      ∧ sourceOfFrame? (requestFrame (List.replicate 1100 0x78)) = some (List.replicate 1100 0x78)
      ∧ ((opened ReadLimit.exceeds 10 ⟨0, []⟩ 0 ()).serve 9 Recorder.absent
          [.connect, .frame 0 (requestFrame (List.replicate 1100 0x78)) []]).2 = []
      ∧ ((opened ReadLimit.exceeds 10 ⟨0, []⟩ 0 ()).serve 9 Recorder.absent
          [.connect, .frame 0 (requestFrame (List.replicate 1100 0x78)) []]).1.playground.clients
        = 0 := by
  decide +kernel

end Server

end YouthLang
