import OgWebserver.Request.Threads

/-!
# A thread alone

What a thread sends when nobody else touches the global variables, from any target that it
finds there and any fragments that are in the list.
-/

namespace OgWebserver.Request

open Text Config Transition

namespace Client

/-! ## Answers -/

/-- What is sent on a route, behind some replies. -/
def Route.answer (c : Client) (target : Option Bytes) (earlier : List Bytes)
    (front : List Reply) : Route → Except Fault (List Reply)
  | .reply replies => .ok (front ++ replies)
  | .list fragments => .ok (front ++ Listing.page (earlier ++ fragments))
  | .fallBack =>
      match target with
      | none => .error .nullPointer
      | some target => do .ok (front ++ (← c.serveTarget target))

/-- What is sent before the route is taken. -/
def front (c : Client) (target : Option Bytes) : Except Fault (List Reply) :=
  if c.target.isSome then c.testTarget target else .ok []

/-- What the thread sends if it reads this target whenever it reads the variable, and there
are some fragments in the list already. -/
def answer (c : Client) (target : Option Bytes) (earlier : List Bytes) :
    Except Fault (List Reply) := do
  let front ← c.front target
  (← c.route).answer c target earlier front

/-- What the thread sends alone. -/
def alone (c : Client) : Except Fault (List Reply) :=
  c.answer (c.target.getD none) []

variable {c : Client} {s : Shared} {nodes : List (Nat × Bytes)}

/-! ## Runs -/

@[simp]
theorem thread_step (k : Pc) (s : Shared) : c.thread.step k s = c.step k s :=
  rfl

/-- A run of the listing is one of the thread. -/
theorem steps_listing {k k' : Listing.Pc} {list list' : Listing.Fragments} {out : List Reply}
    (run : Steps Listing.program k list out k' list') (target : Option Bytes) :
    Steps c.thread (.listing k) ⟨target, list⟩ out (.listing k') ⟨target, list'⟩ := by
  induction run with
  | refl => exact .refl
  | head step _ ih =>
      refine .head ?_ ih
      rw [Listing.program_step] at step
      rw [thread_step, Client.step, step]
      rfl

/-- A thread comes to the given end. -/
def Ends (c : Client) (k : Pc) (s : Shared) : Except Fault (List Reply) → Prop
  | .ok out => Gives c.thread k s out
  | .error _ => Fails c.thread k s

theorem ends_of_error {k : Pc} {e : Fault} (step : c.step k s = .error e) (e' : Fault) :
    Ends c k s (.error e') :=
  ⟨[], k, s, e, .refl, step⟩

/-- `serveDefaultFile`, when nobody changes the target. -/
theorem ends_strlen {target : Bytes} (is : s.tryTarget = some target) :
    Ends c .strlen s (c.serveTarget target) := by
  have first : c.thread.step .strlen s = .ok (.strcpy (target.length + 1), s, []) := by
    simp only [thread_step, Client.step, is]
  have second : c.thread.step (.strcpy (target.length + 1)) s = .ok (.lookUp, s, []) := by
    simp only [thread_step, Client.step, is, Nat.lt_succ_self, if_pos]
  have run : Steps c.thread .strlen s [] .lookUp s := .silent first (.single second)
  cases served : c.serveTarget target with
  | ok out =>
      have third : c.thread.step .lookUp s = .ok (.done, s, out) := by
        simp only [thread_step, Client.step, is, served]
        rfl
      exact run.gives ⟨_, _, .single third, .inl rfl⟩
  | error e =>
      have third : c.thread.step .lookUp s = .error e := by
        simp only [thread_step, Client.step, is, served]
        rfl
      exact run.fails ⟨[], _, _, e, .refl, third⟩

/-- The rest of a thread, when it goes on along a route. -/
theorem ends_follow {k : Pc} {front : List Reply} {r : Route}
    (step : c.step k s = .ok ((follow front r).1, s, (follow front r).2))
    (holds : Listing.Holds s.list nodes) :
    Ends c k s (r.answer c s.tryTarget (nodes.map Prod.snd) front) := by
  cases r with
  | reply replies => exact ⟨.done, s, .single step, .inl rfl⟩
  | list fragments =>
      rcases @Listing.gives_page _ _ fragments holds with ⟨_, list, run, rfl⟩
      exact ⟨_, _, (Steps.single step).trans (steps_listing run s.tryTarget), .inr rfl⟩
  | fallBack =>
      have run : Steps c.thread k s front .strlen s := .single step
      cases is : s.tryTarget with
      | none =>
          have failed : c.step .strlen s = .error .nullPointer := by
            simp only [Client.step, is]
          exact run.fails ⟨[], _, _, _, .refl, failed⟩
      | some target =>
          have rest := ends_strlen (c := c) is
          rw [Route.answer]
          cases served : c.serveTarget target with
          | ok out =>
              rw [served] at rest
              exact run.gives rest
          | error e =>
              rw [served] at rest
              exact run.fails rest

/-- A thread that reads one target ends with its answer. -/
theorem ends_test (begun : c.target.isSome = true) (holds : Listing.Holds s.list nodes) :
    Ends c .test s (c.answer s.tryTarget (nodes.map Prod.snd)) := by
  rw [answer, front, if_pos begun]
  cases tested : c.testTarget s.tryTarget with
  | error e =>
      have failed : c.step .test s = .error e := by
        rw [Client.step, tested]
        rfl
      exact ends_of_error failed e
  | ok front =>
      cases routed : c.route with
      | error e =>
          have failed : c.step .test s = .error e := by
            rw [Client.step, tested, routed]
            rfl
          exact ends_of_error failed e
      | ok r =>
          have step : c.step .test s = .ok ((follow front r).1, s, (follow front r).2) := by
            rw [Client.step, tested, routed]
            rfl
          exact ends_follow step holds

/-- A thread that does not use the target ends with its answer. -/
theorem ends_start (none : c.target = none) (holds : Listing.Holds s.list nodes) :
    Ends c .start s (c.answer s.tryTarget (nodes.map Prod.snd)) := by
  rw [answer, front, none, if_neg (by simp)]
  cases routed : c.route with
  | error e =>
      have failed : c.step .start s = .error e := by
        simp only [Client.step, none, routed]
        rfl
      exact ends_of_error failed e
  | ok r =>
      have step : c.step .start s = .ok ((follow [] r).1, s, (follow [] r).2) := by
        simp only [Client.step, none, routed]
        rfl
      exact ends_follow step holds

theorem step_start {target : Option Bytes} (is : c.target = some target) (s : Shared) :
    c.step .start s = .ok (.test, { s with tryTarget := target }, []) := by
  simp only [Client.step, is]

/-- Alone a thread reads its own target. -/
theorem ends_alone (holds : Listing.Holds s.list nodes) :
    Ends c .start s (c.answer (c.target.getD s.tryTarget) (nodes.map Prod.snd)) := by
  cases is : c.target with
  | none => exact ends_start is holds
  | some target =>
      have rest := @ends_test c { s with tryTarget := target } nodes (by rw [is]; rfl) holds
      have run : Steps c.thread .start s [] .test { s with tryTarget := target } :=
        .single (step_start is s)
      rw [Option.getD_some]
      cases answered : c.answer target (nodes.map Prod.snd) with
      | ok out =>
          rw [answered] at rest
          exact run.gives rest
      | error e =>
          rw [answered] at rest
          exact run.fails rest

/-! ## The handlers -/

/-- Whatever has been sent before, the handler sends this. -/
def Delivers (c : Client) (handler : World → Except Fault World) (replies : List Reply) : Prop :=
  ∀ events, ∃ w, handler ⟨c.upstreams, events⟩ = .ok w ∧
    c.replies w.events = c.replies events ++ replies

/-- A handler whose events do not depend on those before. -/
def Appends (handler : World → Except Fault World) : Prop :=
  ∀ upstreams w events, handler ⟨upstreams, []⟩ = .ok w →
    handler ⟨upstreams, events⟩ = .ok { w with events := events ++ w.events }

variable {req : ClientRequest} {fullPath path : Bytes} {replies : List Reply} {r : Route}

theorem Appends.delivers {handler : World → Except Fault World} (appends : Appends handler)
    (sent : c.sends handler = .ok replies) : c.Delivers handler replies := by
  intro events
  rcases bind_eq_ok_iff.mp sent with ⟨w, ran, is⟩
  refine ⟨_, appends _ w events ran, ?_⟩
  rw [← Except.ok.inj is]
  exact List.flatMap_append

theorem appends_sendErrorResponse (code : Nat) (msg path : Bytes) :
    Appends (sendErrorResponse req code msg path) := by
  intro upstreams w events ran
  rcases bind_eq_ok_iff.mp ran with ⟨d, sent, is⟩
  obtain rfl := Except.ok.inj is
  rw [sendErrorResponse, sent]
  rfl

theorem appends_serveFile (o : Outside) : Appends (serveFile o req fullPath) := by
  intro upstreams w events ran
  rcases bind_eq_ok_iff.mp ran with ⟨mimeType, found, is⟩
  obtain rfl := Except.ok.inj is
  rw [serveFile, found]
  rfl

theorem appends_passUpstream (o : Outside) : Appends (passUpstream o req) := by
  intro upstreams w events ran
  rcases bind_eq_ok_iff.mp ran with ⟨chosen, found, ran⟩
  rcases chosen with _ | ⟨address, upstreams'⟩
  · obtain rfl := Except.ok.inj ran
    rw [passUpstream, found]
    simp [bind, Except.bind]
  · simp only at ran
    rw [passUpstream, found]
    simp only [bind, Except.bind]
    split at ran
    · obtain rfl := Except.ok.inj ran
      simp
    · obtain rfl := Except.ok.inj ran
      simp
    · rcases bind_eq_ok_iff.mp ran with ⟨done, relayed, is⟩
      obtain rfl := Except.ok.inj is
      rw [relayed]
      cases none : done.sent.isEmpty <;> simp [World.emit, none]

/-! ## The handlers between the accesses -/

theorem delivers_notFound (sent : c.notFound req = .ok replies) :
    c.Delivers (sendErrorResponse req 404 (bytes "Not Found") req.path) replies :=
  (appends_sendErrorResponse 404 (bytes "Not Found") req.path).delivers sent

theorem delivers_passUpstream (sent : c.sends (handleProxyPass c.outside req) = .ok replies) :
    c.Delivers (passUpstream c.outside req) replies :=
  (appends_passUpstream c.outside).delivers sent

theorem delivers_serveFile (sent : c.sends (serveFile c.outside req fullPath) = .ok replies) :
    c.Delivers (serveFile c.outside req fullPath) replies :=
  (appends_serveFile c.outside).delivers sent

theorem fragments_eq {names fragments : List Bytes}
    (made : names.mapM (c.fragment fullPath path) = .ok fragments) :
    fragments = names.map (c.fragmentText fullPath path) := by
  induction names generalizing fragments with
  | nil => exact (Except.ok.inj made).symm
  | cons name names ih =>
      rw [List.mapM_cons] at made
      rcases bind_eq_ok_iff.mp made with ⟨text, one, made⟩
      rcases bind_eq_ok_iff.mp made with ⟨rest, more, is⟩
      rcases bind_eq_ok_iff.mp one with ⟨_, _, fits⟩
      have own : text = c.fragmentText fullPath path name := by
        rw [strcpy] at fits
        split at fits
        · exact (Except.ok.inj fits).symm
        · cases fits
      rw [← Except.ok.inj is, own, ih more]
      rfl

/-- A route of replies is answered with them. -/
theorem sent_of_reply {sent : Except Fault (List Reply)} {target : Option Bytes}
    (routed : (do .ok (.reply (← sent))) = Except.ok r)
    (answered : r.answer c target [] [] = .ok replies) : sent = .ok replies := by
  rcases bind_eq_ok_iff.mp routed with ⟨own, is, same⟩
  obtain rfl := Except.ok.inj same
  rw [is, ← Except.ok.inj answered]
  rfl

theorem delivers_showDirectoryListing {target : Option Bytes}
    (listed : c.listed = some (fullPath, req.path))
    (routed : c.showDirectoryListing req fullPath = .ok r)
    (answered : r.answer c target [] [] = .ok replies) :
    c.Delivers (Request.showDirectoryListing c.outside req fullPath) replies := by
  rw [showDirectoryListing] at routed
  split at routed
  case h_1 none =>
    intro events
    rw [Request.showDirectoryListing, none]
    exact delivers_notFound (sent_of_reply routed answered) events
  case h_2 entries found =>
    rcases bind_eq_ok_iff.mp routed with ⟨fragments, made, is⟩
    obtain rfl := Except.ok.inj is
    obtain rfl : Listing.page fragments = replies := Except.ok.inj answered
    intro events
    rw [Request.showDirectoryListing, found, fragments_eq made]
    refine ⟨_, rfl, ?_⟩
    simp [World.emit, Client.replies, reply, listed]

variable {handler : Handler} {target : Option Bytes} {isDir : Option Bool}

theorem listed_of_pathExists (decided : c.decision = .ok (.handle handler req))
    (exists_ : pathExists c.outside req req.path = .ok (fullPath, isDir)) :
    c.listed = some (fullPath, req.path) := by
  rw [pathExists] at exists_
  split at exists_
  · cases exists_
  case h_2 root is =>
    rcases bind_eq_ok_iff.mp exists_ with ⟨copied, fits, same⟩
    rw [strcpy] at fits
    split at fits
    · obtain rfl := Except.ok.inj fits
      rw [listed, decided, ← (Prod.mk.inj (Except.ok.inj same)).1]
      simp [is]
    · cases fits

theorem delivers_handleGetVerb (decided : c.decision = .ok (.handle handler req))
    (routed : c.handleGetVerb req = .ok r) (answered : r.answer c target [] [] = .ok replies) :
    c.Delivers (Request.handleGetVerb c.outside req) replies := by
  rcases bind_eq_ok_iff.mp routed with ⟨⟨fullPath, isDir⟩, exists_, routed⟩
  intro events
  rw [Request.handleGetVerb, exists_]
  rcases isDir with _ | _ | _
  · exact delivers_notFound (sent_of_reply routed answered) events
  · simp only at routed
    split at routed
    case isTrue opens =>
      rcases delivers_serveFile (sent_of_reply routed answered) events with ⟨w, ran, same⟩
      exact ⟨w, by simpa [bind, Except.bind, opens] using ran, same⟩
    case isFalse closed =>
      rcases delivers_notFound (sent_of_reply routed answered) events with ⟨w, ran, same⟩
      exact ⟨w, by simpa [bind, Except.bind, closed] using ran, same⟩
  · rcases bind_eq_ok_iff.mp routed with ⟨index, found, routed⟩
    rcases index with _ | indexPath
    · simp only at routed
      split at routed
      case isTrue auto =>
        have listed := listed_of_pathExists decided exists_
        rcases delivers_showDirectoryListing listed routed answered events with ⟨w, ran, same⟩
        exact ⟨w, by simpa [bind, Except.bind, found, auto] using ran, same⟩
      case isFalse notAuto =>
        rcases delivers_notFound (sent_of_reply routed answered) events with ⟨w, ran, same⟩
        exact ⟨w, by simpa [bind, Except.bind, found, notAuto] using ran, same⟩
    · rcases delivers_serveFile (sent_of_reply routed answered) events with ⟨w, ran, same⟩
      exact ⟨w, by simpa [bind, Except.bind, found] using ran, same⟩

/-- `serveDefaultFile` behind the copies of the target. -/
theorem appends_serveTarget (o : Outside) (target : Bytes) :
    Appends (fun w => do
      let (fullPath, isDir) ← pathExists o req target
      if isDir = some true then sendErrorResponse req 404 (bytes "Not Found") target w
      else if o.fs.opens fullPath then serveFile o req fullPath w
      else sendErrorResponse req 404 (bytes "Not Found") target w) := by
  intro upstreams w events ran
  rcases bind_eq_ok_iff.mp ran with ⟨⟨fullPath, isDir⟩, exists_, ran⟩
  simp only at ran
  simp only [exists_, bind, Except.bind]
  by_cases directory : isDir = some true
  · rw [if_pos directory] at ran ⊢
    exact appends_sendErrorResponse _ _ _ upstreams w events ran
  · rw [if_neg directory] at ran ⊢
    by_cases opens : o.fs.opens fullPath = true
    · rw [if_pos opens] at ran ⊢
      exact appends_serveFile o upstreams w events ran
    · rw [if_neg opens] at ran ⊢
      exact appends_sendErrorResponse _ _ _ upstreams w events ran

theorem delivers_serveDefaultFile (decided : c.decision = .ok (.handle handler req))
    (routed : c.serveDefaultFile req = .ok r) (answered : r.answer c target [] [] = .ok replies) :
    c.Delivers (Request.serveDefaultFile c.outside target req) replies := by
  rw [serveDefaultFile] at routed
  split at routed
  case isTrue proxied =>
    intro events
    rw [Request.serveDefaultFile.eq_def, if_pos proxied]
    exact delivers_passUpstream (sent_of_reply routed answered) events
  case isFalse notProxied =>
    obtain rfl := Except.ok.inj routed
    rcases target with _ | target
    · cases answered
    · rcases bind_eq_ok_iff.mp answered with ⟨sent, served, is⟩
      obtain rfl : sent = replies := Except.ok.inj is
      rw [serveTarget, decided] at served
      intro events
      rw [Request.serveDefaultFile, if_neg notProxied]
      exact (appends_serveTarget c.outside target).delivers served events

theorem delivers_tryFiles (decided : c.decision = .ok (.handle handler req))
    (routed : c.handleTryFiles req = .ok r) (answered : r.answer c target [] [] = .ok replies) :
    c.Delivers (tryFiles c.outside target req) replies := by
  rcases bind_eq_ok_iff.mp routed with ⟨⟨fullPath, isDir⟩, exists_, routed⟩
  intro events
  rw [tryFiles, exists_]
  rcases isDir with _ | _ | _
  · exact delivers_serveDefaultFile decided routed answered events
  · simp only at routed
    split at routed
    case isTrue opens =>
      rcases delivers_serveFile (sent_of_reply routed answered) events with ⟨w, ran, same⟩
      exact ⟨w, by simpa [bind, Except.bind, opens] using ran, same⟩
    case isFalse closed =>
      rcases delivers_serveDefaultFile decided routed answered events with ⟨w, ran, same⟩
      exact ⟨w, by simpa [bind, Except.bind, closed] using ran, same⟩
  · rcases bind_eq_ok_iff.mp routed with ⟨index, found, routed⟩
    rcases index with _ | indexPath
    · simp only at routed
      split at routed
      case isTrue auto =>
        have listed := listed_of_pathExists decided exists_
        rcases delivers_showDirectoryListing listed routed answered events with ⟨w, ran, same⟩
        exact ⟨w, by simpa [bind, Except.bind, found, auto] using ran, same⟩
      case isFalse notAuto =>
        rcases delivers_serveDefaultFile decided routed answered events with ⟨w, ran, same⟩
        exact ⟨w, by simpa [bind, Except.bind, found, notAuto] using ran, same⟩
    · simp only at routed
      split at routed
      case isTrue proxied =>
        rcases delivers_passUpstream (sent_of_reply routed answered) events with ⟨w, ran, same⟩
        exact ⟨w, by simpa [bind, Except.bind, found, proxied, handleProxyPass] using ran, same⟩
      case isFalse notProxied =>
        rcases delivers_serveFile (sent_of_reply routed answered) events with ⟨w, ran, same⟩
        exact ⟨w, by simpa [bind, Except.bind, found, notProxied] using ran, same⟩

theorem answer_front {front : List Reply} {out : List Reply}
    (answered : r.answer c target [] front = .ok out) :
    ∃ rest, r.answer c target [] [] = .ok rest ∧ out = front ++ rest := by
  cases r with
  | reply replies => exact ⟨replies, rfl, (Except.ok.inj answered).symm⟩
  | list fragments => exact ⟨_, rfl, (Except.ok.inj answered).symm⟩
  | fallBack =>
      rcases target with _ | target
      · cases answered
      · rcases bind_eq_ok_iff.mp answered with ⟨rest, served, is⟩
        refine ⟨rest, ?_, (Except.ok.inj is).symm⟩
        rw [Route.answer, served]
        rfl

theorem delivers_handleTryFiles (decided : c.decision = .ok (.handle .tryFiles req))
    {out : List Reply} (answered : c.alone = .ok out) :
    ∃ w, Request.handleTryFiles c.outside req ⟨c.upstreams, []⟩ = .ok w ∧
      c.replies w.events = out := by
  have set : c.target = some (checkTryFilesFormat req.loc) := by rw [Client.target, decided]
  have routes : c.route = c.handleTryFiles req := by
    rw [route, decided]
    rfl
  rw [alone, answer, front, set, routes] at answered
  rcases bind_eq_ok_iff.mp answered with ⟨front, tested, answered⟩
  rcases bind_eq_ok_iff.mp answered with ⟨r, routed, answered⟩
  rcases answer_front answered with ⟨rest, later, rfl⟩
  simp only [Option.isSome_some, if_pos, Option.getD_some] at tested later
  rw [Request.handleTryFiles]
  cases format : checkTryFilesFormat req.loc with
  | some target =>
      rw [format] at tested later
      obtain rfl : [] = front := Except.ok.inj tested
      exact delivers_tryFiles decided routed later []
  | none =>
      rw [format] at tested later
      rw [testTarget, decided] at tested
      rcases bind_eq_ok_iff.mp tested with ⟨w, missing, is⟩
      rcases bind_eq_ok_iff.mp missing with ⟨_, _, emitted⟩
      obtain rfl := Except.ok.inj emitted
      rcases delivers_tryFiles decided routed later
        [.respond (.error 404 (bytes "Not Found"))] with ⟨w, ran, same⟩
      refine ⟨w, ?_, ?_⟩
      · simp only [missing, bind, Except.bind]
        exact ran
      · rw [same, ← Except.ok.inj is]
        rfl

/-- Alone a thread sends what `processInput` does. -/
theorem processInput_of_alone {out : List Reply} (answered : c.alone = .ok out) :
    ∃ w, processInput c.site c.outside c.listener c.received ⟨c.upstreams, []⟩ = .ok w ∧
      c.replies w.events = out := by
  have routed : ∃ r, c.route = .ok r := by
    rcases bind_eq_ok_iff.mp answered with ⟨_, _, answered⟩
    rcases bind_eq_ok_iff.mp answered with ⟨r, routed, _⟩
    exact ⟨r, routed⟩
  rcases routed with ⟨r, routed⟩
  rcases bind_eq_ok_iff.mp routed with ⟨d, decided, follows⟩
  have same : processInput c.site c.outside c.listener c.received ⟨c.upstreams, []⟩ =
      d.carryOut c.outside ⟨c.upstreams, []⟩ := by
    have dispatched : dispatch c.site c.listener c.received = .ok d := decided
    rw [processInput, dispatched]
    rfl
  rw [same]
  -- without `try_files` the route alone decides
  have direct : c.target = none → r.answer c none [] [] = .ok out := by
    intro none
    rw [alone, answer, front, none, routed] at answered
    exact answered
  have unset : ∀ handler req, d = .handle handler req → handler ≠ .tryFiles → c.target = none := by
    rintro handler req rfl other
    rw [Client.target, decided]
    cases handler <;> first | rfl | exact absurd rfl other
  rcases d with ⟨code, msg, path⟩ | ⟨handler, req⟩
  · have none : c.target = none := by rw [Client.target, decided]
    obtain rfl := Except.ok.inj follows
    exact ⟨_, rfl, Except.ok.inj (direct none)⟩
  · cases handler with
    | tryFiles => exact delivers_handleTryFiles decided answered
    | byVerb =>
        exact delivers_handleGetVerb decided follows (direct (unset _ _ rfl (by simp))) []
    | proxyPass =>
        exact delivers_passUpstream (sent_of_reply follows (direct (unset _ _ rfl (by simp)))) []
    | fastcgiPass =>
        exact delivers_passUpstream (sent_of_reply follows (direct (unset _ _ rfl (by simp)))) []

end Client

end OgWebserver.Request
