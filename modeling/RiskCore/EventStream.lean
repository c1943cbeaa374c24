import RiskCore.AuditFrames
import RiskCore.Histories
import RiskCore.QueryStrings
import RiskCore.Runs

/-!
# The dashboard's event stream

`EventStreamClient` in a page with its token requests, sockets and timers. An
action is one turn of the event loop: the owner's `connect()` or `destroy()`, the
end of a token request, a callback of a socket, or a timer. The handlers the owner
passes are `push` and `setConnState`, which do not call the client.
-/

namespace EventStream

open Values AuditFrames

inductive ConnectionState where
  | connecting
  | opened
  | closed
deriving DecidableEq

/-- What the page is built with, and how `JSON.parse` reads numbers and surrogates. -/
structure Page where
  wsUrl : String
  number : List Char → Int × Int
  lone : Nat → Char

/-! ## The token and the message -/

/-- The answer of `/api/auth/ws-token`; `rejected` where `fetch` or `res.json()` throws. -/
inductive TokenReply where
  | rejected
  | answered (ok : Bool) (token : Option String)

def fetchWsToken : TokenReply → Option String
  | .rejected => none
  | .answered ok token => if ok then token else none

def isUnreserved (c : Char) : Bool := c.isAlphanum || c ∈ "-_.!~*'()".toList

def encodeURIComponent (text : String) : String :=
  String.ofList (QueryStrings.encode false isUnreserved text.toList)

example : encodeURIComponent "a b/é" = "a%20b%2F%C3%A9" := by decide

def socketUrl (page : Page) (token : String) : String :=
  page.wsUrl ++ "?token=" ++ encodeURIComponent token

/-- `kafkaEventMessageSchema.safeParse(raw).data`: keys outside the schema are dropped. -/
def parsedMessage : Json → Option Json
  | .obj fields =>
    if safeParse kafkaEventMessageSchema (.obj fields) then
      some (.obj (kafkaEventMessageSchema.filterMap (fun (k, _) =>
        (fields.lookup k).map (fun j => (k, j)))))
    else none
  | _ => none

/-! ## The client in its page -/

/-- What is recorded of a run: the owner's calls, the `open` callbacks, and what the
client does. -/
inductive Entry where
  | connect
  | destroy
  | opened
  | onState (state : ConnectionState)
  | onMessage (message : Json)
  | newSocket (url : String)
  | setTimeout (delay : Nat)

structure Client where
  ws : Option Nat
  reconnectTimer : Option Nat
  backoffMs : Nat
  destroyed : Bool

/-- A socket that has not fired `close`; `closing` once `close()` was called on it. -/
structure Socket where
  id : Nat
  closing : Bool

/-- `fetches`, `sockets` and `timers` are the token requests in flight, the sockets
not yet closed and the timers armed. `next` is a handle not used so far. -/
structure State where
  client : Client
  connected : Bool
  fetches : Nat
  sockets : List Socket
  timers : List Nat
  next : Nat
  record : List Entry

def init : State := ⟨⟨none, none, 1000, false⟩, false, 0, [], [], 0, []⟩

def State.add (s : State) (e : Entry) : State := { s with record := s.record ++ [e] }

/-- `setTimeout(() => this.connect(), delay)` with the new back-off. -/
def State.scheduleReconnect (s : State) : State :=
  let delay := min s.client.backoffMs 30000
  { s.add (.setTimeout delay) with
    client := { s.client with
      backoffMs := min (s.client.backoffMs * 2) 30000
      reconnectTimer := some s.next }
    timers := s.timers ++ [s.next]
    next := s.next + 1 }

/-- `connect()` up to `await fetchWsToken()`. -/
def State.connect (s : State) : State :=
  if s.client.destroyed then s
  else { s.add (.onState .connecting) with fetches := s.fetches + 1 }

/-- `this.ws = new WebSocket(url)`. -/
def State.openSocket (s : State) (url : String) : State :=
  { s.add (.newSocket url) with
    client := { s.client with ws := some s.next }
    sockets := s.sockets ++ [⟨s.next, false⟩]
    next := s.next + 1 }

/-- `connect()` from there on. The empty string is no token either. -/
def State.resume (page : Page) (s : State) (token : Option String) : State :=
  if s.client.destroyed then s
  else
    let token := token.getD ""
    if token = "" then (s.add (.onState .closed)).scheduleReconnect
    else s.openSocket (socketUrl page token)

/-- `close()` on the socket. -/
def State.close (s : State) (id : Nat) : State :=
  { s with sockets := s.sockets.map (fun socket =>
      if socket.id = id then { socket with closing := true } else socket) }

def State.onopen (s : State) : State :=
  ({ s with client := { s.client with backoffMs := 1000 } }).add (.onState .opened)

def State.onmessage (page : Page) (s : State) (data : List Char) : State :=
  match parse page.number page.lone data with
  | .value raw =>
    match parsedMessage raw with
    | some message => s.add (.onMessage message)
    | none => s
  | _ => s

/-- `this.ws = null`. -/
def State.dropped (s : State) : State := { s with client := { s.client with ws := none } }

def State.onclose (s : State) : State :=
  let s := s.dropped
  if s.client.destroyed then s else (s.add (.onState .closed)).scheduleReconnect

/-- `clearTimeout` on the timer. -/
def State.clear (s : State) (timer : Nat) : State :=
  { s with timers := s.timers.filter (fun t => t ≠ timer) }

def State.destroy (s : State) : State :=
  let s := { s with client := { s.client with destroyed := true } }
  let s := match s.client.reconnectTimer with
    | some timer => s.clear timer
    | none => s
  let s := match s.client.ws with
    | some id => s.close id
    | none => s
  s.dropped

/-- The owner has called `connect()`. -/
def State.called (s : State) : State := { s.add .connect with connected := true }

/-- One token request is no longer in flight. -/
def State.answered (s : State) : State := { s with fetches := s.fetches - 1 }

/-- The socket is closed. -/
def State.remove (s : State) (id : Nat) : State :=
  { s with sockets := s.sockets.filter (fun socket => socket.id ≠ id) }

inductive Action where
  | connect
  | destroy
  | fetched (reply : TokenReply)
  | opened (id : Nat)
  | message (id : Nat) (data : List Char)
  | error (id : Nat)
  | closed (id : Nat)
  | fired (timer : Nat)

def State.hasSocket (s : State) (id : Nat) : Bool := s.sockets.any (fun socket => socket.id = id)

/-- No `open` or `message` reaches a socket on which `close()` was called. -/
def State.listens (s : State) (id : Nat) : Bool :=
  s.sockets.any (fun socket => socket.id = id && !socket.closing)

/-- The owner calls `connect()` and `destroy()` at most once. -/
def step (page : Page) (s : State) : Action → Option State
  | .connect => if s.connected then none else some s.called.connect
  | .destroy => if s.client.destroyed then none else some (s.add .destroy).destroy
  | .fetched reply =>
    if s.fetches = 0 then none
    else some (s.answered.resume page (fetchWsToken reply))
  | .opened id => if s.listens id then some (s.add .opened).onopen else none
  | .message id data => if s.listens id then some (s.onmessage page data) else none
  | .error id => if s.hasSocket id then some (s.close id) else none
  | .closed id => if s.hasSocket id then some (s.remove id).onclose else none
  | .fired timer => if timer ∈ s.timers then some (s.clear timer).connect else none

/-- What a step does, with what it waits for. -/
inductive Step (page : Page) (s : State) : Action → State → Prop where
  | connect (uncalled : s.connected = false) : Step page s .connect s.called.connect
  | destroy (alive : s.client.destroyed = false) : Step page s .destroy (s.add .destroy).destroy
  | fetched {reply} (inFlight : s.fetches ≠ 0) :
      Step page s (.fetched reply) (s.answered.resume page (fetchWsToken reply))
  | opened {id} (listens : s.listens id = true) : Step page s (.opened id) (s.add .opened).onopen
  | message {id data} (listens : s.listens id = true) :
      Step page s (.message id data) (s.onmessage page data)
  | error {id} (present : s.hasSocket id = true) : Step page s (.error id) (s.close id)
  | closed {id} (present : s.hasSocket id = true) : Step page s (.closed id) (s.remove id).onclose
  | fired {timer} (armed : timer ∈ s.timers) : Step page s (.fired timer) (s.clear timer).connect

theorem step_sound {page : Page} {s t : State} {a : Action} (h : step page s a = some t) :
    Step page s a t := by
  cases a <;> simp only [step, Option.ite_none_left_eq_some, Option.ite_none_right_eq_some,
    Option.some.injEq] at h <;> obtain ⟨guard, rfl⟩ := h
  case connect => exact .connect (Bool.eq_false_iff.mpr guard)
  case destroy => exact .destroy (Bool.eq_false_iff.mpr guard)
  case fetched => exact .fetched guard
  case opened => exact .opened guard
  case message => exact .message guard
  case error => exact .error guard
  case closed => exact .closed guard
  case fired => exact .fired guard

/-! ## One activity at a time -/

/-- The token request, the client's socket or its timer is all there is. -/
inductive Activity (s : State) : Prop where
  | fetch (fetches : s.fetches = 1) (sockets : s.sockets = []) (timers : s.timers = [])
  | socket (socket : Socket) (fetches : s.fetches = 0) (sockets : s.sockets = [socket])
      (timers : s.timers = []) (current : s.client.ws = some socket.id)
  | timer (timer : Nat) (fetches : s.fetches = 0) (sockets : s.sockets = [])
      (timers : s.timers = [timer]) (current : s.client.reconnectTimer = some timer)

structure Idle (s : State) : Prop where
  fetches : s.fetches = 0
  sockets : s.sockets = []
  timers : s.timers = []

/-- A token request may still come back and the sockets will close. -/
structure Gone (s : State) : Prop where
  timers : s.timers = []
  closing : ∀ socket ∈ s.sockets, socket.closing = true

inductive Phase (s : State) : Prop where
  | fresh (alive : s.client.destroyed = false) (connected : s.connected = false) (idle : Idle s)
  | running (alive : s.client.destroyed = false) (connected : s.connected = true)
      (activity : Activity s)
  | gone (destroyed : s.client.destroyed = true) (gone : Gone s)

theorem Idle.scheduleReconnect {s : State} (h : Idle s) : Activity s.scheduleReconnect :=
  .timer s.next h.fetches h.sockets (congrArg (· ++ [s.next]) h.timers) rfl

theorem connect_of_alive {s : State} (alive : s.client.destroyed = false) :
    s.connect = { s.add (.onState .connecting) with fetches := s.fetches + 1 } := by
  simp [State.connect, alive]

theorem resume_of_alive (page : Page) {s : State} (alive : s.client.destroyed = false)
    (token : Option String) : s.resume page token =
      if token.getD "" = "" then (s.add (.onState .closed)).scheduleReconnect
      else s.openSocket (socketUrl page (token.getD "")) := by
  simp [State.resume, alive]

theorem onclose_of_alive {s : State} (alive : s.client.destroyed = false) :
    s.onclose = (s.dropped.add (.onState .closed)).scheduleReconnect := by
  simp [State.onclose, State.dropped, alive]

theorem onclose_of_destroyed {s : State} (destroyed : s.client.destroyed = true) :
    s.onclose = s.dropped := by
  simp [State.onclose, State.dropped, destroyed]

theorem Idle.openSocket {s : State} (h : Idle s) (url : String) : Activity (s.openSocket url) :=
  .socket ⟨s.next, false⟩ h.fetches (by simp [State.openSocket, h.sockets]) h.timers rfl

theorem running_connect {s : State} (alive : s.client.destroyed = false)
    (connected : s.connected = true) (idle : Idle s) : Phase s.connect := by
  rw [connect_of_alive alive]
  refine .running alive connected (.fetch ?_ idle.sockets idle.timers)
  simp [idle.fetches]

theorem running_resume (page : Page) {s : State} (alive : s.client.destroyed = false)
    (connected : s.connected = true) (idle : Idle s) (token : Option String) :
    Phase (s.resume page token) := by
  rw [resume_of_alive page alive]
  split
  · have closed : Idle (s.add (.onState .closed)) := ⟨idle.fetches, idle.sockets, idle.timers⟩
    exact .running alive connected closed.scheduleReconnect
  · exact .running alive connected (idle.openSocket _)

theorem gone_connect {s : State} (destroyed : s.client.destroyed = true) (gone : Gone s) :
    Phase s.connect := by
  have unchanged : s.connect = s := by simp [State.connect, destroyed]
  rw [unchanged]
  exact .gone destroyed gone

theorem gone_resume (page : Page) {s : State} (destroyed : s.client.destroyed = true)
    (gone : Gone s) (token : Option String) : Phase (s.resume page token) := by
  have unchanged : s.resume page token = s := by simp [State.resume, destroyed]
  rw [unchanged]
  exact .gone destroyed gone

theorem running_onclose {s : State} (alive : s.client.destroyed = false)
    (connected : s.connected = true) (idle : Idle s) : Phase s.onclose := by
  rw [onclose_of_alive alive]
  exact .running alive connected (Idle.scheduleReconnect ⟨idle.fetches, idle.sockets, idle.timers⟩)

theorem gone_onclose {s : State} (destroyed : s.client.destroyed = true) (gone : Gone s) :
    Phase s.onclose := by
  rw [onclose_of_destroyed destroyed]
  exact .gone destroyed ⟨gone.timers, gone.closing⟩

theorem destroy_eq (s : State) : s.destroy =
    { s with
      client := { s.client with ws := none, destroyed := true }
      timers := s.timers.filter (fun t => s.client.reconnectTimer ≠ some t)
      sockets := s.sockets.map (fun socket =>
        if s.client.ws = some socket.id then { socket with closing := true } else socket) } := by
  cases htimer : s.client.reconnectTimer <;> cases hws : s.client.ws <;>
    simp [State.destroy, State.clear, State.close, State.dropped, htimer, hws, eq_comm]

theorem Idle.destroy {s : State} (h : Idle s) : Gone s.destroy where
  timers := by simp [destroy_eq, h.timers]
  closing := by simp [destroy_eq, h.sockets]

/-- Whatever is under way is stopped, but for a token request. -/
theorem Activity.destroy {s : State} (h : Activity s) : Gone s.destroy := by
  rw [destroy_eq]
  refine ⟨?_, ?_⟩
  · cases h with
    | fetch fetches sockets timers => simp [timers]
    | socket socket fetches sockets timers current => simp [timers]
    | timer timer fetches sockets timers current => simp [timers, current]
  · cases h with
    | fetch fetches sockets timers => simp [sockets]
    | socket socket fetches sockets timers current => simp [sockets, current]
    | timer timer fetches sockets timers current => simp [sockets]

theorem Gone.close {s : State} (h : Gone s) (id : Nat) : Gone (s.close id) := by
  refine ⟨h.timers, ?_⟩
  intro socket hsocket
  obtain ⟨before, hbefore, rfl⟩ := List.mem_map.mp hsocket
  split
  · rfl
  · exact h.closing before hbefore

theorem Activity.close {s : State} (h : Activity s) (id : Nat) : Activity (s.close id) := by
  cases h with
  | fetch fetches sockets timers => exact .fetch fetches (by simp [State.close, sockets]) timers
  | socket socket fetches sockets timers current =>
    refine .socket (if socket.id = id then { socket with closing := true } else socket) fetches
      (by simp [State.close, sockets]) timers ?_
    split <;> exact current
  | timer timer fetches sockets timers current =>
    exact .timer timer fetches (by simp [State.close, sockets]) timers current

/-- The client ignores what is recorded and how long it would wait. -/
theorem Phase.congr {s t : State} (h : Phase s)
    (destroyed : t.client.destroyed = s.client.destroyed)
    (connected : t.connected = s.connected) (fetches : t.fetches = s.fetches)
    (sockets : t.sockets = s.sockets) (timers : t.timers = s.timers)
    (ws : t.client.ws = s.client.ws)
    (reconnectTimer : t.client.reconnectTimer = s.client.reconnectTimer) : Phase t := by
  cases h with
  | fresh alive unconnected idle =>
    exact .fresh (destroyed.trans alive) (connected.trans unconnected)
      ⟨fetches.trans idle.fetches, sockets.trans idle.sockets, timers.trans idle.timers⟩
  | running alive running activity =>
    refine .running (destroyed.trans alive) (connected.trans running) ?_
    cases activity with
    | fetch f ss ts => exact .fetch (fetches.trans f) (sockets.trans ss) (timers.trans ts)
    | socket socket f ss ts current =>
      exact .socket socket (fetches.trans f) (sockets.trans ss) (timers.trans ts) (ws.trans current)
    | timer timer f ss ts current =>
      exact .timer timer (fetches.trans f) (sockets.trans ss) (timers.trans ts)
        (reconnectTimer.trans current)
  | gone gone rest =>
    exact .gone (destroyed.trans gone) ⟨timers.trans rest.timers, sockets ▸ rest.closing⟩

theorem phase_init : Phase init := .fresh rfl rfl ⟨rfl, rfl, rfl⟩

theorem phase_onmessage (page : Page) {s : State} (h : Phase s) (data : List Char) :
    Phase (s.onmessage page data) := by
  unfold State.onmessage
  split
  · split
    · exact h.congr rfl rfl rfl rfl rfl rfl rfl
    · exact h
  · exact h

theorem phase_step (page : Page) : Runs.Inductive (step page) Phase := by
  intro s a t h hstep
  cases step_sound hstep with
  | connect uncalled =>
    cases h with
    | fresh alive unconnected idle =>
      exact running_connect (s := s.called) alive rfl ⟨idle.fetches, idle.sockets, idle.timers⟩
    | running alive connected activity =>
      rw [uncalled] at connected
      cases connected
    | gone destroyed gone =>
      exact gone_connect (s := s.called) destroyed ⟨gone.timers, gone.closing⟩
  | destroy alive =>
    have destroyed : (s.add .destroy).destroy.client.destroyed = true := by rw [destroy_eq]
    have marked : Phase (s.add .destroy) := h.congr rfl rfl rfl rfl rfl rfl rfl
    cases marked with
    | fresh alive unconnected idle => exact .gone destroyed idle.destroy
    | running alive connected activity => exact .gone destroyed activity.destroy
    | gone gone rest =>
      have gone : s.client.destroyed = true := gone
      rw [gone] at alive
      cases alive
  | fetched inFlight =>
    cases h with
    | fresh alive unconnected idle => exact absurd idle.fetches inFlight
    | running alive connected activity =>
      cases activity with
      | fetch fetches sockets timers =>
        have idle : Idle s.answered := ⟨congrArg (· - 1) fetches, sockets, timers⟩
        exact running_resume (s := s.answered) page alive connected idle _
      | socket socket fetches sockets timers current => exact absurd fetches inFlight
      | timer timer fetches sockets timers current => exact absurd fetches inFlight
    | gone destroyed gone =>
      exact gone_resume (s := s.answered) page destroyed ⟨gone.timers, gone.closing⟩ _
  | opened listens => exact h.congr rfl rfl rfl rfl rfl rfl rfl
  | message listens => exact phase_onmessage page h _
  | error present =>
    cases h with
    | fresh alive unconnected idle => simp [State.hasSocket, idle.sockets] at present
    | running alive connected activity => exact .running alive connected (activity.close _)
    | gone destroyed gone => exact .gone destroyed (gone.close _)
  | @closed id present =>
    cases h with
    | fresh alive unconnected idle => simp [State.hasSocket, idle.sockets] at present
    | running alive connected activity =>
      cases activity with
      | fetch fetches sockets timers => simp [State.hasSocket, sockets] at present
      | socket socket fetches sockets timers current =>
        have own : socket.id = id := by simpa [State.hasSocket, sockets] using present
        exact running_onclose (s := s.remove id) alive connected
          ⟨fetches, by simp [State.remove, sockets, own], timers⟩
      | timer timer fetches sockets timers current => simp [State.hasSocket, sockets] at present
    | gone destroyed gone =>
      exact gone_onclose (s := s.remove id) destroyed ⟨gone.timers,
        fun socket kept => gone.closing socket (List.mem_filter.mp kept).1⟩
  | @fired timer armed =>
    cases h with
    | fresh alive unconnected idle => simp [idle.timers] at armed
    | running alive connected activity =>
      cases activity with
      | fetch fetches sockets timers => simp [timers] at armed
      | socket socket fetches sockets timers current => simp [timers] at armed
      | timer own fetches sockets timers current =>
        have same : timer = own := by simpa [timers] using armed
        exact running_connect (s := s.clear timer) alive connected
          ⟨fetches, sockets, by simp [State.clear, timers, same]⟩
    | gone destroyed gone => simp [gone.timers] at armed

/-! ## What is recorded of a run -/

def Entry.isOpen : Entry → Bool
  | .opened => true
  | _ => false

def Entry.isTimer : Entry → Bool
  | .setTimeout _ => true
  | _ => false

/-- Something the client does. -/
def Entry.isActive : Entry → Bool
  | .onState _ | .onMessage _ | .newSocket _ | .setTimeout _ => true
  | _ => false

def armedSinceOpen (record : List Entry) : Nat :=
  (Histories.since Entry.isOpen record).countP Entry.isTimer

/-- `1000 * 2^k` ms, and no more than 30 s. -/
def delay (k : Nat) : Nat := min (1000 * 2 ^ k) 30000

def DelayRule (before : List Entry) (e : Entry) : Prop :=
  ∀ ms, e = .setTimeout ms → ms = delay (armedSinceOpen before)

def SilentRule (before : List Entry) (e : Entry) : Prop :=
  .destroy ∈ before → e.isActive = false

structure Recorded (s : State) : Prop where
  connected : .connect ∈ s.record ↔ s.connected = true
  destroyed : .destroy ∈ s.record ↔ s.client.destroyed = true
  backoff : s.client.backoffMs = delay (armedSinceOpen s.record)
  delays : Histories.Each DelayRule s.record
  silent : Histories.Each SilentRule s.record

theorem delay_succ (k : Nat) : min (delay k * 2) 30000 = delay (k + 1) := by
  unfold delay
  rw [pow_succ]
  omega

theorem armedSinceOpen_snoc {record : List Entry} {e : Entry} (h : e.isOpen = false) :
    armedSinceOpen (record ++ [e]) = armedSinceOpen record + if e.isTimer then 1 else 0 := by
  simp [armedSinceOpen, Histories.since_snoc_of_neg h, List.countP_append, List.countP_singleton]

theorem armedSinceOpen_opened (record : List Entry) : armedSinceOpen (record ++ [.opened]) = 0 := by
  simp [armedSinceOpen, Histories.since_snoc_of_pos (p := Entry.isOpen) (e := .opened) rfl]

section
variable {s t : State} {e : Entry}

theorem Recorded.congr (h : Recorded s) (record : t.record = s.record)
    (connected : t.connected = s.connected) (destroyed : t.client.destroyed = s.client.destroyed)
    (backoff : t.client.backoffMs = s.client.backoffMs) : Recorded t where
  connected := by rw [record, connected]; exact h.connected
  destroyed := by rw [record, destroyed]; exact h.destroyed
  backoff := by rw [record, backoff]; exact h.backoff
  delays := record ▸ h.delays
  silent := record ▸ h.silent

theorem delayRule_of_not_timer {before : List Entry} (h : e.isTimer = false) :
    DelayRule before e := by
  rintro ms rfl
  cases h

/-- A handler call or a new socket. -/
theorem Recorded.add (h : Recorded s) (alive : s.client.destroyed = false)
    (active : e.isActive = true) (untimed : e.isTimer = false) : Recorded (s.add e) where
  connected := by
    have other : Entry.connect ≠ e := by rintro rfl; cases active
    simpa [State.add, other] using h.connected
  destroyed := by
    have other : Entry.destroy ≠ e := by rintro rfl; cases active
    simpa [State.add, other] using h.destroyed
  backoff := by
    have unopened : e.isOpen = false := by cases e <;> first | rfl | cases active
    simpa [State.add, armedSinceOpen_snoc unopened, untimed] using h.backoff
  delays := Histories.each_snoc.mpr ⟨h.delays, delayRule_of_not_timer untimed⟩
  silent := by
    refine Histories.each_snoc.mpr ⟨h.silent, fun gone => ?_⟩
    rw [h.destroyed.mp gone] at alive
    cases alive

theorem Recorded.scheduleReconnect (h : Recorded s) (alive : s.client.destroyed = false) :
    Recorded s.scheduleReconnect where
  connected := by simpa [State.scheduleReconnect, State.add] using h.connected
  destroyed := by simpa [State.scheduleReconnect, State.add] using h.destroyed
  backoff := by
    have armed : armedSinceOpen s.scheduleReconnect.record = armedSinceOpen s.record + 1 :=
      armedSinceOpen_snoc rfl
    rw [armed, ← delay_succ, ← h.backoff]
    rfl
  delays := by
    refine Histories.each_snoc.mpr ⟨h.delays, ?_⟩
    rintro ms ⟨⟩
    rw [h.backoff]
    simp [delay]
  silent := by
    refine Histories.each_snoc.mpr ⟨h.silent, fun gone => ?_⟩
    rw [h.destroyed.mp gone] at alive
    cases alive

theorem untimed_of_passive (h : e.isActive = false) : e.isTimer = false := by
  cases e with
  | setTimeout ms => cases h
  | _ => rfl

/-- The owner's `connect()`, or the mark of a destroyed client. -/
theorem Recorded.mark (h : Recorded s) (passive : e.isActive = false) (unopened : e.isOpen = false)
    (record : t.record = s.record ++ [e]) (connected : .connect ∈ t.record ↔ t.connected = true)
    (destroyed : .destroy ∈ t.record ↔ t.client.destroyed = true)
    (backoff : t.client.backoffMs = s.client.backoffMs) : Recorded t where
  connected := connected
  destroyed := destroyed
  backoff := by
    rw [record, armedSinceOpen_snoc unopened, untimed_of_passive passive, backoff]
    exact h.backoff
  delays := by
    rw [record]
    exact Histories.each_snoc.mpr ⟨h.delays, delayRule_of_not_timer (untimed_of_passive passive)⟩
  silent := by
    rw [record]
    exact Histories.each_snoc.mpr ⟨h.silent, fun _ => passive⟩

theorem Recorded.called (h : Recorded s) : Recorded s.called := by
  refine h.mark (e := .connect) rfl rfl rfl ?_ ?_ rfl
  · simp [State.called, State.add]
  · simpa [State.called, State.add] using h.destroyed

theorem Recorded.destroy (h : Recorded s) : Recorded (s.add .destroy).destroy := by
  rw [destroy_eq]
  refine h.mark (e := .destroy) rfl rfl rfl ?_ ?_ rfl
  · simpa [State.add] using h.connected
  · simp [State.add]

theorem Recorded.onopen (h : Recorded s) (alive : s.client.destroyed = false) :
    Recorded (s.add .opened).onopen := by
  have reset : Recorded { s.add .opened with client := { s.client with backoffMs := 1000 } } := by
    refine ⟨?_, ?_, ?_, ?_, ?_⟩
    · simpa [State.add] using h.connected
    · simpa [State.add] using h.destroyed
    · simp [State.add, armedSinceOpen_opened, delay]
    · exact Histories.each_snoc.mpr ⟨h.delays, delayRule_of_not_timer rfl⟩
    · exact Histories.each_snoc.mpr ⟨h.silent, fun _ => rfl⟩
  exact reset.add alive rfl rfl

theorem Recorded.connect (h : Recorded s) : Recorded s.connect := by
  unfold State.connect
  split
  · exact h
  · rename_i alive
    exact (h.add (e := .onState .connecting) (by simpa using alive) rfl rfl).congr rfl rfl rfl rfl

theorem Recorded.closed (h : Recorded s) (alive : s.client.destroyed = false) :
    Recorded (s.add (.onState .closed)).scheduleReconnect :=
  (h.add (e := .onState .closed) alive rfl rfl).scheduleReconnect alive

theorem Recorded.resume (page : Page) (h : Recorded s) (token : Option String) :
    Recorded (s.resume page token) := by
  cases alive : s.client.destroyed with
  | true =>
    have unchanged : s.resume page token = s := by simp [State.resume, alive]
    rw [unchanged]
    exact h
  | false =>
    rw [resume_of_alive page alive]
    split
    · exact h.closed alive
    · exact (h.add (e := .newSocket _) alive rfl rfl).congr rfl rfl rfl rfl

theorem Recorded.onclose (h : Recorded s) : Recorded s.onclose := by
  have dropped : Recorded s.dropped := h.congr rfl rfl rfl rfl
  cases alive : s.client.destroyed with
  | true =>
    rw [onclose_of_destroyed alive]
    exact dropped
  | false =>
    rw [onclose_of_alive alive]
    exact dropped.closed alive

theorem Recorded.onmessage (page : Page) (h : Recorded s) (alive : s.client.destroyed = false)
    (data : List Char) : Recorded (s.onmessage page data) := by
  unfold State.onmessage
  split
  · split
    · exact h.add alive rfl rfl
    · exact h
  · exact h

end

/-- A socket that may still open or receive has no destroyed client. -/
theorem alive_of_listens {s : State} {id : Nat} (h : Phase s) (listens : s.listens id = true) :
    s.client.destroyed = false := by
  cases h with
  | fresh alive unconnected idle => exact alive
  | running alive connected activity => exact alive
  | gone destroyed gone =>
    obtain ⟨socket, hsocket, own⟩ := List.any_eq_true.mp listens
    simp [gone.closing socket hsocket] at own

theorem recorded_init : Recorded init where
  connected := by simp [init]
  destroyed := by simp [init]
  backoff := rfl
  delays := Histories.each_nil
  silent := Histories.each_nil

theorem recorded_step (page : Page) {s t : State} {a : Action} (phase : Phase s) (h : Recorded s)
    (hstep : step page s a = some t) : Recorded t := by
  cases step_sound hstep with
  | connect uncalled => exact h.called.connect
  | destroy alive => exact h.destroy
  | fetched inFlight =>
    have answered : Recorded s.answered := h.congr rfl rfl rfl rfl
    exact answered.resume page _
  | opened listens => exact h.onopen (alive_of_listens phase listens)
  | message listens => exact h.onmessage page (alive_of_listens phase listens) _
  | error present => exact h.congr rfl rfl rfl rfl
  | @closed id present =>
    have removed : Recorded (s.remove id) := h.congr rfl rfl rfl rfl
    exact removed.onclose
  | @fired timer armed =>
    have cleared : Recorded (s.clear timer) := h.congr rfl rfl rfl rfl
    exact cleared.connect

/-! ## Every interleaving -/

def TokenInFlight (s : State) : Prop := 0 < s.fetches

def SocketUnclosed (s : State) : Prop := ∃ socket ∈ s.sockets, s.client.ws = some socket.id

def TimerArmed (s : State) : Prop := s.timers ≠ []

def ExactlyOne (p q r : Prop) : Prop := (p ∧ ¬q ∧ ¬r) ∨ (¬p ∧ q ∧ ¬r) ∨ (¬p ∧ ¬q ∧ r)

theorem Activity.exactlyOne {s : State} (h : Activity s) :
    ExactlyOne (TokenInFlight s) (SocketUnclosed s) (TimerArmed s) := by
  cases h with
  | fetch fetches sockets timers =>
    exact Or.inl ⟨by simp [TokenInFlight, fetches], by simp [SocketUnclosed, sockets],
      by simp [TimerArmed, timers]⟩
  | socket socket fetches sockets timers current =>
    exact Or.inr (Or.inl ⟨by simp [TokenInFlight, fetches],
      ⟨socket, by simp [sockets], current⟩, by simp [TimerArmed, timers]⟩)
  | timer timer fetches sockets timers current =>
    exact Or.inr (Or.inr ⟨by simp [TokenInFlight, fetches], by simp [SocketUnclosed, sockets],
      by simp [TimerArmed, timers]⟩)

theorem Activity.count {s : State} (h : Activity s) :
    s.fetches + s.sockets.length + s.timers.length = 1 := by
  cases h with
  | fetch fetches sockets timers => simp [fetches, sockets, timers]
  | socket socket fetches sockets timers current => simp [fetches, sockets, timers]
  | timer timer fetches sockets timers current => simp [fetches, sockets, timers]

theorem reached (page : Page) {as : List Action} {s : State}
    (hrun : Runs.run (step page) init as = some s) : Phase s ∧ Recorded s := by
  have both : Runs.Inductive (step page) (fun s => Phase s ∧ Recorded s) :=
    fun s a t h hstep => ⟨phase_step page s a t h.1 hstep, recorded_step page h.1 h.2 hstep⟩
  exact both.run ⟨phase_init, recorded_init⟩ hrun

/-- Between `connect()` and `destroy()` one activity and only one goes on, every timer
waits as long as its place behind the last `open` says, and a destroyed client does
nothing any more. -/
theorem stream_never_forks (page : Page) (as : List Action) (s : State)
    (hrun : Runs.run (step page) init as = some s) :
    (.connect ∈ s.record → .destroy ∉ s.record →
      ExactlyOne (TokenInFlight s) (SocketUnclosed s) (TimerArmed s) ∧
        s.fetches + s.sockets.length + s.timers.length = 1) ∧
    Histories.Each DelayRule s.record ∧ Histories.Each SilentRule s.record := by
  obtain ⟨phase, recorded⟩ := reached page hrun
  refine ⟨fun called kept => ?_, recorded.delays, recorded.silent⟩
  have connected := recorded.connected.mp called
  cases phase with
  | fresh alive unconnected idle =>
    rw [connected] at unconnected
    cases unconnected
  | running alive connected activity => exact ⟨activity.exactlyOne, activity.count⟩
  | gone destroyed gone => exact absurd (recorded.destroyed.mpr destroyed) kept

def examplePage : Page := ⟨"ws://localhost:8080/ws/events/", fun _ => (0, 0), fun _ => '\ufffd'⟩

/-- No token, a socket that breaks, a second one that opens and is closed, and `destroy()`
while the token for a third is fetched. -/
def exampleRun : List Action :=
  [.connect, .fetched (.answered false none), .fired 0, .fetched (.answered true (some "tok")),
   .error 1, .closed 1, .fired 2, .fetched (.answered true (some "tok")), .opened 3, .closed 3,
   .fired 4, .destroy, .fetched (.answered true (some "tok"))]

theorem exampleRun_backs_off : ∃ s, Runs.run (step examplePage) init exampleRun = some s ∧
    s.sockets = [] ∧ s.timers = [] ∧ .destroy ∈ s.record ∧
      Histories.Each DelayRule s.record ∧ Histories.Each SilentRule s.record := by
  obtain ⟨s, hrun, sockets, timers, record⟩ : ∃ s,
      Runs.run (step examplePage) init exampleRun = some s ∧ s.sockets = [] ∧ s.timers = [] ∧
        s.record.getLast? = some .destroy := ⟨_, rfl, rfl, rfl, rfl⟩
  obtain ⟨-, delays, silent⟩ := stream_never_forks examplePage exampleRun s hrun
  exact ⟨s, hrun, sockets, timers, List.mem_of_getLast? record, delays, silent⟩

end EventStream
