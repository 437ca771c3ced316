import OgWebserver.Request.Responses

/-!
# Delivery of files

`serveFile` prints the size of a file into the header, and `sendFile` gives the file to the
kernel in a single call, which may take less than it is given.
-/

namespace OgWebserver.Request

open Text Config Transition

/-- How many bytes the calls of `sendfile` take of those they are given: some, and not more. -/
structure SendfileCalls where
  takes : Nat → Nat → Nat
  positive : ∀ call n, 0 < n → 0 < takes call n
  bounded : ∀ call n, takes call n ≤ n

/-- A socket: the number of calls so far, and what they have sent. -/
structure Outgoing where
  calls : Nat
  sent : Bytes

/-- No calls yet. -/
def Outgoing.fresh : Outgoing :=
  { calls := 0, sent := [] }

/-- `sendfile`: the number of bytes it takes, and the offset behind them. -/
def sendfile (k : SendfileCalls) (file : Bytes) (offset count : Nat) (out : Outgoing) :
    Nat × Nat × Outgoing :=
  let taken := k.takes out.calls count
  (taken, offset + taken,
    { calls := out.calls + 1, sent := out.sent ++ (file.drop offset).take taken })

/-- `sendFile` to a plain socket.  The number of bytes taken is compared with the size for a
message only. -/
def sendFile (k : SendfileCalls) (file : Bytes) (size : Nat) (out : Outgoing) : Outgoing :=
  let (_, _, out) := sendfile k file 0 size out
  out

/-- What `serveFile` sends: the number behind `Content-Length`, and the body. -/
def deliver (k : SendfileCalls) (file : Bytes) : Response → Option (Bytes × Bytes)
  | .file _ _ size withBody =>
      some (formatSize size, if withBody then (sendFile k file size .fresh).sent else [])
  | _ => none

/-- The response is the file: with its size in the header, and its bytes as the body. -/
def DeliversExactly (k : SendfileCalls) (file : Bytes) (w after : World) : Prop :=
  ∃ response, after = w.emit (.respond response) ∧
    deliver k file response = some (decimal file.length, file)

variable {k : SendfileCalls} {file fullPath : Bytes} {o : Outside} {req : ClientRequest}
variable {w after : World}

/-- The client gets a beginning of the file in any case. -/
theorem sent_sendFile (k : SendfileCalls) (file : Bytes) :
    (sendFile k file file.length .fresh).sent = file.take (k.takes 0 file.length) := by
  rw [sendFile, sendfile, Outgoing.fresh, List.drop_zero, List.nil_append]

theorem sent_sendFile_eq_iff :
    (sendFile k file file.length .fresh).sent = file ↔ k.takes 0 file.length = file.length := by
  rw [sent_sendFile, List.take_eq_self_iff]
  have le := k.bounded 0 file.length
  omega

/-- `serveFile` sends one response with the size of the file. -/
theorem response_of_serveFile (verb : req.verb = bytes "GET")
    (served : serveFile o req fullPath w = .ok after) :
    ∃ mimeType, after = w.emit (.respond (.file fullPath mimeType (o.fs.size fullPath) true)) := by
  rcases bind_eq_ok_iff.mp served with ⟨mimeType, _, is⟩
  have get : (req.verb == bytes "GET") = true := beq_iff_eq.mpr verb
  rw [get] at is
  exact ⟨mimeType, (Except.ok.inj is).symm⟩

/-- A file that is served for a GET is delivered exactly if and only if its size is an `int`,
and the first call of `sendfile` takes all of it. -/
theorem deliversExactly_iff (verb : req.verb = bytes "GET")
    (size : o.fs.size fullPath = file.length) (small : file.length < 2 ^ 63)
    (served : serveFile o req fullPath w = .ok after) (k : SendfileCalls) :
    DeliversExactly k file w after ↔
      file.length < 2 ^ 31 ∧ k.takes 0 file.length = file.length := by
  rcases response_of_serveFile verb served with ⟨mimeType, rfl⟩
  rw [size, ← formatSize_eq_decimal_iff small, ← sent_sendFile_eq_iff]
  have delivered : deliver k file (.file fullPath mimeType file.length true) =
      some (formatSize file.length, (sendFile k file file.length .fresh).sent) := rfl
  constructor
  · rintro ⟨response, same, exact_⟩
    have events := List.append_cancel_left (congrArg World.events same)
    obtain rfl := Event.respond.inj (List.cons.inj events).1
    rw [delivered] at exact_
    exact Prod.mk.inj (Option.some.inj exact_)
  · rintro ⟨length, body⟩
    refine ⟨_, rfl, ?_⟩
    rw [delivered, length, body]

/-- A kernel that takes everything. -/
def takesAll : SendfileCalls where
  takes _ n := n
  positive _ _ positive := positive
  bounded _ n := Nat.le_refl n

/-- A kernel that takes one byte with each call. -/
def takesOne : SendfileCalls where
  takes _ n := min n 1
  positive _ n positive := by omega
  bounded _ n := Nat.min_le_left n 1

/-- `GET /ab`. -/
def getRequest : ClientRequest :=
  { verb := bytes "GET"
    path := bytes "/ab"
    queryString := none
    protocol := bytes "HTTP/1.1"
    host := bytes "b"
    headers := []
    server := serverOf .initial
    loc := defaultLocation }

/-- Every file has two bytes. -/
def twoBytes : Outside :=
  { plainFiles with fs := { plainFiles.fs with size := fun _ => 2 } }

theorem deliversExactly_iff_all :
    ∃ after, serveFile twoBytes getRequest (bytes "/srv/ab") ⟨[], []⟩ = .ok after ∧
      DeliversExactly takesAll (bytes "ab") ⟨[], []⟩ after :=
  ⟨_, rfl, (@deliversExactly_iff (bytes "ab") (bytes "/srv/ab") twoBytes getRequest _ _ rfl rfl
    (by decide) rfl takesAll).mpr ⟨by decide, rfl⟩⟩

/-- Of a file that the kernel does not take at once, the rest is not sent. -/
theorem oneByte_cut :
    ∃ response, serveFile twoBytes getRequest (bytes "/srv/ab") ⟨[], []⟩ =
        .ok (World.emit ⟨[], []⟩ (.respond response)) ∧
      deliver takesOne (bytes "ab") response = some (bytes "2", bytes "a") ∧
      ¬ DeliversExactly takesOne (bytes "ab") ⟨[], []⟩
        (World.emit ⟨[], []⟩ (.respond response)) := by
  refine ⟨_, rfl, by decide, ?_⟩
  rintro ⟨response, same, exact_⟩
  obtain rfl := Event.respond.inj (List.cons.inj (congrArg World.events same)).1
  exact absurd exact_ (by decide)

end OgWebserver.Request
