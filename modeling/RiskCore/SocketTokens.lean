import Mathlib.Data.List.TakeWhile
import RiskCore.EventStream
import RiskCore.QueryStrings

/-!
# The token in the URL of a socket

The dashboard puts its access token behind `?token=` in the URL it opens a socket
with, and `JWTAuthMiddleware` reads it from the query string of the handshake. What
`AccessToken` makes of a token is a parameter.
-/

namespace SocketTokens

open EventStream QueryStrings

/-! ## On the way -/

/-- The special-query percent-encode set. -/
def isSpecial (c : Char) : Bool :=
  c.toNat ≤ 0x1F || 0x7E < c.toNat || c ∈ [' ', '"', '#', '<', '>', '\'']

/-- The query `new WebSocket(url)` asks for. -/
def sentQuery (url : String) : List Char :=
  respell isSpecial
    (((url.toList.takeWhile (fun c => c ≠ '#')).dropWhile (fun c => c ≠ '?')).drop 1)

/-! ## `JWTAuthMiddleware` -/

def addValue (params : List (String × List String)) (name value : String) :
    List (String × List String) :=
  if (params.lookup name).isSome then
    params.map (fun e => if e.1 = name then (name, e.2 ++ [value]) else e)
  else params ++ [(name, [value])]

/-- `parse_qs`. -/
def parseQs (query : List Char) : List (String × List String) :=
  (parseQsl false query).foldl
    (fun params p => addValue params (String.ofList p.1) (String.ofList p.2)) []

/-- `params.get("token", [None])[0]`. -/
def tokenParam (query : List Char) : Option String :=
  ((parseQs query).lookup "token").bind List.head?

/-- The `user_id` of the scope; `validate` is `_validate_jwt`. -/
def userId (validate : String → Option String) (query : List Char) : Option String :=
  match tokenParam query with
  | some token => if token = "" then none else validate token
  | none => none

/-! ## What arrives -/

theorem isUnreserved_plain : Plain isUnreserved where
  ascii := by
    intro c h
    rw [isUnreserved, Bool.or_eq_true] at h
    rcases h with h | h
    · have h : ((c.isUpper || c.isLower) || c.isDigit) = true := h
      rw [Bool.or_eq_true, Bool.or_eq_true] at h
      rcases h with (upper | lower) | digit
      · have bounds : 'A'.val ≤ c.val ∧ c.val ≤ 'Z'.val := of_decide_eq_true upper
        exact Nat.lt_of_le_of_lt (UInt32.le_iff_toNat_le.mp bounds.2) (by decide)
      · have bound : c.val ≤ 'z'.val := of_decide_eq_true (Bool.and_eq_true_iff.mp lower).2
        exact Nat.lt_of_le_of_lt (UInt32.le_iff_toNat_le.mp bound) (by decide)
      · have bound : c.val ≤ '9'.val := of_decide_eq_true (Bool.and_eq_true_iff.mp digit).2
        exact Nat.lt_of_le_of_lt (UInt32.le_iff_toNat_le.mp bound) (by decide)
    · have all : ∀ d ∈ "-_.!~*'()".toList, d.toNat < 128 := by simp
      exact all c (of_decide_eq_true h)
  delimiter := by
    have all : ∀ d ∈ ['%', '+', '&', '=', ' '], isUnreserved d = false := by simp [isUnreserved]
    intro c h hmem
    rw [all c hmem] at h
    cases h

theorem isSpecial_harmless : Harmless isSpecial := by
  intro c h
  simp only [isSpecial, Bool.or_eq_true, decide_eq_true_eq] at h
  have listed : ∀ d ∈ [' ', '"', '#', '<', '>', '\''],
      hexValue d = none ∧ d ∉ ['%', '+', '&', '='] := by simp [hexValue]
  have plain : ∀ d ∈ ['%', '+', '&', '='], 0x1F < d.toNat ∧ d.toNat ≤ 0x7E := by simp
  have digits : 0x1F < '0'.toNat ∧ 'f'.toNat ≤ 0x7E := by decide
  rcases h with (low | high) | h
  · refine ⟨?_, fun hmem => Nat.not_lt.mpr low (plain c hmem).1⟩
    by_contra digit
    have := (hexValue_bounds (Option.isSome_iff_ne_none.mpr digit)).1
    omega
  · refine ⟨?_, fun hmem => Nat.not_lt.mpr (plain c hmem).2 high⟩
    by_contra digit
    have := (hexValue_bounds (Option.isSome_iff_ne_none.mpr digit)).2
    omega
  · exact listed c h

theorem encodeURIComponent_eq (text : String) :
    (encodeURIComponent text).toList = encode false isUnreserved text.toList := by
  rw [encodeURIComponent, String.toList_ofList]

/-- The pair the dashboard writes into the URL. -/
def pairs (token : String) : List (List Char × List Char) := [("token".toList, token.toList)]

theorem socketUrl_eq (page : Page) (token : String) : (socketUrl page token).toList =
    page.wsUrl.toList ++ '?' :: query false isUnreserved (pairs token) := by
  have name : encode false isUnreserved ['t', 'o', 'k', 'e', 'n'] = ['t', 'o', 'k', 'e', 'n'] := by
    decide
  simp [socketUrl, encodeURIComponent_eq, query, pairs, name]

theorem sentQuery_socketUrl (page : Page)
    (plainUrl : ∀ c ∈ page.wsUrl.toList, c ≠ '?' ∧ c ≠ '#') (token : String) :
    sentQuery (socketUrl page token) =
      query false (fun c => isUnreserved c && !isSpecial c) (pairs token) := by
  have noFragment : ∀ c ∈ (socketUrl page token).toList, decide (c ≠ '#') = true := by
    intro c hc
    rw [socketUrl, String.toList_append, String.toList_append, encodeURIComponent_eq,
      List.mem_append, List.mem_append] at hc
    rcases hc with (hc | hc) | hc
    · exact decide_eq_true (plainUrl c hc).2
    · have all : ∀ d ∈ "?token=".toList, decide (d ≠ '#') = true := by simp
      exact all c hc
    · refine decide_eq_true (fun he => ?_)
      have cases := mem_encode_cases hc
      rw [he] at cases
      revert cases
      decide
  have beforeQuery : ∀ c ∈ page.wsUrl.toList, decide (c ≠ '?') = true :=
    fun c hc => decide_eq_true (plainUrl c hc).1
  have whole : (socketUrl page token).toList.takeWhile (fun c => c ≠ '#') =
      (socketUrl page token).toList := by
    exact List.takeWhile_eq_self_iff.mpr noFragment
  rw [sentQuery, whole, socketUrl_eq, List.dropWhile_append_of_pos beforeQuery]
  simpa using respell_query isUnreserved_plain isSpecial_harmless (pairs token)

/-- The server reads the token the dashboard was given. -/
theorem token_arrives (page : Page) (plainUrl : ∀ c ∈ page.wsUrl.toList, c ≠ '?' ∧ c ≠ '#')
    {token : String} (present : token ≠ "") :
    tokenParam (sentQuery (socketUrl page token)) = some token := by
  have written : token.toList ≠ [] := by simpa using present
  rw [sentQuery_socketUrl page plainUrl, tokenParam, parseQs,
    parseQsl_query (isUnreserved_plain.unspecial isSpecial)]
  simp [pairs, written, addValue]

/-! ## What a step of the client records -/

def Entry.url? : Entry → Option String
  | .newSocket url => some url
  | _ => none

def Entry.message? : Entry → Option Values.Json
  | .onMessage message => some message
  | _ => none

/-- What the page is given of a frame. -/
def given (page : Page) (data : List Char) : Option Values.Json :=
  match AuditFrames.parse page.number page.lone data with
  | .value raw => parsedMessage raw
  | _ => none

def givenBy (page : Page) : Action → List Values.Json
  | .message _ data => (given page data).toList
  | _ => []

/-- What a step adds to the record: the URL of a socket for a token that was fetched,
the message of a frame. -/
structure Adds (page : Page) (s t : State) (a : Action) (new : List Entry) : Prop where
  record : t.record = s.record ++ new
  next : s.next ≤ t.next
  urls : ∀ url ∈ new.filterMap Entry.url?, t.next = s.next + 1 ∧
    ∃ reply token, a = .fetched reply ∧ fetchWsToken reply = some token ∧ token ≠ "" ∧
      url = socketUrl page token
  messages : new.filterMap Entry.message? = givenBy page a
  listens : ∀ n, t.listens n = true → s.listens n = true ∨ n = s.next

theorem listens_of_sockets {s t : State} {n : Nat}
    (h : ∀ socket ∈ t.sockets, socket.closing = false → socket ∈ s.sockets)
    (listens : t.listens n = true) : s.listens n = true := by
  simp only [State.listens, List.any_eq_true, Bool.and_eq_true, Bool.not_eq_true'] at listens ⊢
  obtain ⟨socket, hsocket, hid, alive⟩ := listens
  exact ⟨socket, h socket hsocket alive, hid, alive⟩

/-- A step that opens no socket and is given no message. -/
theorem adds_quiet {page : Page} {s t : State} {a : Action} (new : List Entry)
    (record : t.record = s.record ++ new) (next : s.next ≤ t.next)
    (quiet : ∀ e ∈ new, Entry.url? e = none ∧ Entry.message? e = none)
    (noMessage : ∀ id data, a ≠ .message id data)
    (sockets : ∀ socket ∈ t.sockets, socket.closing = false → socket ∈ s.sockets) :
    ∃ new, Adds page s t a new := by
  refine ⟨new, record, next, fun url hurl => ?_, ?_,
    fun n hn => Or.inl (listens_of_sockets sockets hn)⟩
  · obtain ⟨e, he, hurl⟩ := List.mem_filterMap.mp hurl
    rw [(quiet e he).1] at hurl
    cases hurl
  · rw [List.filterMap_eq_nil_iff.mpr (fun e he => (quiet e he).2)]
    cases a with
    | message id data => exact absurd rfl (noMessage id data)
    | _ => rfl

theorem adds_connect {page : Page} {s r : State} {a : Action} (before : List Entry)
    (record : r.record = s.record ++ before) (next : s.next ≤ r.next)
    (quiet : ∀ e ∈ before, Entry.url? e = none ∧ Entry.message? e = none)
    (noMessage : ∀ id data, a ≠ .message id data) (sockets : r.sockets = s.sockets) :
    ∃ new, Adds page s r.connect a new := by
  rw [State.connect]
  split
  · exact adds_quiet _ record next quiet noMessage (fun _ hsocket _ => sockets ▸ hsocket)
  · refine adds_quiet (before ++ [.onState .connecting]) ?_ next ?_ noMessage
      (fun _ hsocket _ => sockets ▸ hsocket)
    · simp [State.add, record]
    · intro e he
      rcases List.mem_append.mp he with he | he
      · exact quiet e he
      · rw [List.mem_singleton.mp he]
        exact ⟨rfl, rfl⟩

theorem adds_step {page : Page} {s t : State} {a : Action} (h : step page s a = some t) :
    ∃ new, Adds page s t a new := by
  cases step_sound h with
  | connect uncalled =>
    exact adds_connect (r := s.called) [.connect] rfl (Nat.le_refl _)
      (by simp [Entry.url?, Entry.message?]) (by simp) rfl
  | destroy alive =>
    rw [destroy_eq]
    refine adds_quiet [.destroy] rfl (Nat.le_refl _)
      (by simp [Entry.url?, Entry.message?]) (by simp) ?_
    intro socket hsocket hopen
    obtain ⟨before, hbefore, rfl⟩ := List.mem_map.mp hsocket
    split at hopen
    · cases hopen
    · rename_i other
      rwa [if_neg other]
  | @fetched reply inFlight =>
    cases destroyed : s.answered.client.destroyed with
    | true =>
      rw [State.resume, if_pos destroyed]
      exact adds_quiet [] (by simp [State.answered]) (Nat.le_refl _) (by simp) (by simp)
        (fun _ hsocket _ => hsocket)
    | false =>
      rw [resume_of_alive page destroyed]
      split
      · refine adds_quiet [.onState .closed, .setTimeout (min s.client.backoffMs 30000)]
          ?_ (Nat.le_succ _) (by simp [Entry.url?, Entry.message?]) (by simp)
          (fun _ hsocket _ => hsocket)
        simp [State.scheduleReconnect, State.add, State.answered]
      · rename_i present
        refine ⟨[.newSocket _], rfl, Nat.le_succ _, fun url hurl => ⟨rfl, ?_⟩, rfl, fun n hn => ?_⟩
        · simp only [List.filterMap_cons, Entry.url?, List.filterMap_nil,
            List.mem_singleton] at hurl
          cases hreply : fetchWsToken reply with
          | none => simp [hreply] at present
          | some token =>
            rw [hreply] at present hurl
            exact ⟨reply, token, rfl, hreply, present, hurl⟩
        · simp only [State.listens, State.openSocket, State.answered, State.add, List.any_append,
            Bool.or_eq_true] at hn
          refine hn.imp id (fun own => ?_)
          simpa [eq_comm] using own
  | opened listens =>
    refine adds_quiet [.opened, .onState .opened] ?_ (Nat.le_refl _)
      (by simp [Entry.url?, Entry.message?]) (by simp) (fun _ hsocket _ => hsocket)
    simp [State.onopen, State.add]
  | @message id data listens =>
    have hmessage : s.onmessage page data =
        { s with record := s.record ++ (given page data).toList.map .onMessage } := by
      rw [State.onmessage, given]
      cases AuditFrames.parse page.number page.lone data with
      | value raw => cases hparsed : parsedMessage raw <;> simp [State.add, hparsed]
      | _ => simp
    rw [hmessage]
    refine ⟨_, rfl, Nat.le_refl _, fun url hurl => ?_, ?_, fun n hn => Or.inl hn⟩
    · cases hgiven : given page data <;> simp [hgiven, Entry.url?] at hurl
    · rw [givenBy]
      cases given page data <;> rfl
  | error present =>
    refine adds_quiet [] (by simp [State.close]) (Nat.le_refl _) (by simp) (by simp) ?_
    intro socket hsocket hopen
    obtain ⟨before, hbefore, rfl⟩ := List.mem_map.mp hsocket
    split at hopen
    · cases hopen
    · rename_i other
      rwa [if_neg other]
  | @closed id present =>
    rw [State.onclose]
    split
    · exact adds_quiet [] (by simp [State.dropped, State.remove]) (Nat.le_refl _) (by simp)
        (by simp) (fun _ hsocket _ => List.mem_of_mem_filter hsocket)
    · refine adds_quiet [.onState .closed, .setTimeout (min s.client.backoffMs 30000)]
        ?_ (Nat.le_succ _) (by simp [Entry.url?, Entry.message?]) (by simp)
        (fun _ hsocket _ => List.mem_of_mem_filter hsocket)
      simp [State.scheduleReconnect, State.add, State.dropped, State.remove]
  | @fired timer armed =>
    exact adds_connect (r := s.clear timer) [] (by simp [State.clear]) (Nat.le_refl _)
      (by simp) (by simp) rfl

/-- In every run of the client, each socket it opens is for the user of a token that was
fetched: what the server reads from the handshake is that token. -/
theorem sockets_carry_tokens (page : Page)
    (plainUrl : ∀ c ∈ page.wsUrl.toList, c ≠ '?' ∧ c ≠ '#') (validate : String → Option String)
    (as : List Action) (s : State) (hrun : Runs.run (step page) init as = some s) :
    ∀ url, Entry.newSocket url ∈ s.record → ∃ reply token, Action.fetched reply ∈ as ∧
      fetchWsToken reply = some token ∧ userId validate (sentQuery url) = validate token := by
  refine Runs.run_induction (P := fun as s => ∀ url, Entry.newSocket url ∈ s.record →
    ∃ reply token, Action.fetched reply ∈ as ∧ fetchWsToken reply = some token ∧
      userId validate (sentQuery url) = validate token) ?_ ?_ hrun
  · intro url hurl
    cases hurl
  · intro as t a u _ ih hu url hurl
    obtain ⟨new, adds⟩ := adds_step hu
    rw [adds.record] at hurl
    rcases List.mem_append.mp hurl with hurl | hurl
    · obtain ⟨reply, token, hreply, hrest⟩ := ih url hurl
      exact ⟨reply, token, List.mem_append_left _ hreply, hrest⟩
    · obtain ⟨-, reply, token, rfl, hfetched, present, rfl⟩ :=
        adds.urls url (List.mem_filterMap.mpr ⟨_, hurl, rfl⟩)
      refine ⟨reply, token, by simp, hfetched, ?_⟩
      rw [userId, token_arrives page plainUrl present]
      exact if_neg present

theorem exampleSockets_carry_tokens : ∃ reply token,
    Action.fetched reply ∈ [Action.connect, .fetched (.answered true (some "a+b/c="))] ∧
    fetchWsToken reply = some token ∧
    userId some (sentQuery (socketUrl examplePage "a+b/c=")) = some token :=
  sockets_carry_tokens examplePage (by simp [examplePage]) some
    [.connect, .fetched (.answered true (some "a+b/c="))] _ rfl _
    (.tail _ (.tail _ (.head _)))

end SocketTokens
