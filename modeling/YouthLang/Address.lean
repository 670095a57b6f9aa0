import YouthLang.Number.Notation
import YouthLang.Text.Quoted

/-!
# Address — where a server listens

An address is a host and a port with a colon between them; a host that holds colons stands in brackets.
A port is a number or the name of a service.
-/

namespace YouthLang

/-- Why no server can listen on an address. -/
inductive AddressError where
  | missingPort
  | tooManyColons
  | missingBracket
  | unexpectedOpening
  | unexpectedClosing
  | invalidPort (port : Text)
  | unknownService (service : Text)
  | noNetwork
deriving DecidableEq, Repr

/-- The sentence that tells the reason. -/
def AddressError.message (address : Text) : AddressError → Text
  | .missingPort => "listen tcp: address " ++ address ++ ": missing port in address"
  | .tooManyColons => "listen tcp: address " ++ address ++ ": too many colons in address"
  | .missingBracket => "listen tcp: address " ++ address ++ ": missing ']' in address"
  | .unexpectedOpening => "listen tcp: address " ++ address ++ ": unexpected '[' in address"
  | .unexpectedClosing => "listen tcp: address " ++ address ++ ": unexpected ']' in address"
  | .invalidPort port => "listen tcp: address " ++ port ++ ": invalid port"
  | .unknownService service => "listen tcp: lookup tcp/" ++ service ++ ": unknown port"
  | .noNetwork => "listen tcp " ++ address ++ ": network is unreachable"

/-- A host and a port. -/
structure Address where
  host : Text
  port : Text
deriving DecidableEq, Repr

namespace Address

/-- The byte between a host and a port. -/
def colon : UInt8 := 0x3A

/-- The bytes around a host that holds colons. -/
def opening : UInt8 := 0x5B

@[inherit_doc opening]
def closing : UInt8 := 0x5D

/-- What stands before and behind the last colon. -/
def cutAtLastColon? (t : Text) : Option (Text × Text) :=
  if t.contains colon then
    let port := (t.reverse.takeWhile (· ≠ colon)).reverse
    some (t.take (t.length - port.length - 1), port)
  else none

/-- The host between brackets in what stands before the last colon. -/
def bracketed (before port : Text) : Except AddressError Address :=
  let host := before.tail.takeWhile (· ≠ closing)
  match before.drop (host.length + 1) with
  | [] => .error (if port.contains closing then .missingPort else .missingBracket)
  | [_] =>
    if host.contains opening || port.contains opening then .error .unexpectedOpening
    else if port.contains closing then .error .unexpectedClosing
    else .ok ⟨host, port⟩
  | _ :: next :: _ => .error (if next = colon then .tooManyColons else .missingPort)

/-- The host and the port that a text names. -/
def ofText (t : Text) : Except AddressError Address :=
  match cutAtLastColon? t with
  | none => .error .missingPort
  | some (before, port) =>
    if before.head? = some opening then bracketed before port
    else if before.contains colon then .error .tooManyColons
    else if t.contains opening then .error .unexpectedOpening
    else if t.contains closing then .error .unexpectedClosing
    else .ok ⟨before, port⟩

/-- The largest number of a port. -/
def maxPort : Nat := 65535

/-- The services that a port can be named by. -/
def services : List Text :=
  ["domain", "ftp", "ftps", "gopher", "http", "https", "imap2", "imap3", "imaps", "pop3", "pop3s",
    "smtp", "submissions", "ssh", "telnet"]

/-- A number that may have a sign in front. -/
def signedDigits (t : Text) : Bool × Text :=
  match t with
  | 0x2B :: rest => (false, rest)
  | 0x2D :: rest => (true, rest)
  | _ => (false, t)

/-- What is wrong with a port.  No port at all leaves the choice to the system. -/
def portProblem? (port : Text) : Option AddressError :=
  let (isNegative, digits) := signedDigits port
  if digits.all fun b => 0x30 ≤ b && b ≤ 0x39 then
    let n := Number.digitsValue digits
    if maxPort < n || (isNegative && n ≠ 0) then some (.invalidPort port) else none
  else if services.contains port then none
  else some (.unknownService port)

/-- The address that stands for an empty one. -/
def usual : Text := ":http"

/-- What keeps a server from listening on an address.  Even a good address is refused, because there is
no network here. -/
def refusal (t : Text) : AddressError :=
  match ofText (if t = [] then usual else t) with
  | .error e => e
  | .ok a => (portProblem? a.port).getD .noNetwork

end Address

end YouthLang
