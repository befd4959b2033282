import NvmrDisplay.Discover.AvahiBrowse
import NvmrDisplay.Lib.Mailbox
import NvmrDisplay.Lib.Safety

/-!
The start-up handshake of `AvahiBrowse` with the Avahi daemon. The client runs
one procedure at a time, `initialize` first and then the handlers of the
signals it has received. The daemon starts to browse or resolve when it serves
`ServiceBrowserNew` or `ServiceResolverNew` and emits each signal once, at any
later moment; a signal that finds no match rule and no handler is dropped.
Signals whose handlers only write to the log are left out, and so is what the
resolvers of HTTP services report.
-/

namespace NvmrDisplay.Dbus

open Discover Lib

inductive ServiceType where
  | videoSender
  | http
  deriving DecidableEq, Repr

/-- The objects the daemon creates for the client. -/
inductive Endpoint where
  | browser (type : ServiceType)
  | resolver (type : ServiceType) (item : ServiceItem)
  deriving DecidableEq, Repr

/-- How far the client has come with an object: the daemon has created it and
runs it, the proxy has registered its match rule, the handler is connected. -/
inductive Link where
  | absent
  | created
  | matched
  | connected
  deriving DecidableEq, Repr

/-- The steps of the client that the bus or the client's maps can see. -/
inductive ClientOp where
  | call (endpoint : Endpoint)
  | createProxy (endpoint : Endpoint)
  | remember (item : ServiceItem)
  | connect (endpoint : Endpoint)
  | start (endpoint : Endpoint)
  deriving DecidableEq, Repr

/-- The object that a step is about. -/
def ClientOp.endpoint? : ClientOp → Option Endpoint
  | .call endpoint | .createProxy endpoint | .connect endpoint | .start endpoint => some endpoint
  | .remember _ => none

inductive BusSignal where
  | itemNew (type : ServiceType) (item : ServiceItem)
  | found (item : ServiceItem)
  deriving DecidableEq, Repr

/-- The object that emits a signal. -/
def BusSignal.source : BusSignal → Endpoint
  | .itemNew type _ => .browser type
  | .found item => .resolver .videoSender item

/-- The signals about video senders: their handlers are `signalVideoSenderNew`
and `resolvedVideoSenderFound`. -/
def BusSignal.isVideoSender : BusSignal → Bool
  | .itemNew type _ => type = .videoSender
  | .found _ => true

structure Handshake where
  /-- What is left of the procedure the client is in. -/
  program : List ClientOp
  links : Endpoint → Link
  nameToResolver : QMap String ServiceItem
  bus : Mailbox BusSignal

namespace Handshake

def browse (type : ServiceType) : List ClientOp :=
  [.call (.browser type), .createProxy (.browser type), .connect (.browser type),
    .start (.browser type)]

def initializeOps : List ClientOp :=
  browse .videoSender ++ browse .http

def initial : Handshake where
  program := initializeOps
  links _ := .absent
  nameToResolver := .empty
  bus := .empty

/-- The procedure that a signal starts. -/
def handler (client : Handshake) : BusSignal → List ClientOp
  | .itemNew .videoSender item =>
      if client.nameToResolver.contains item.name then []
      else
        [.call (.resolver .videoSender item), .createProxy (.resolver .videoSender item),
          .remember item, .connect (.resolver .videoSender item)]
  | .itemNew .http item =>
      [.call (.resolver .http item), .createProxy (.resolver .http item),
        .connect (.resolver .http item)]
  | .found _ => []

def link (client : Handshake) (endpoint : Endpoint) (reached : Link) : Handshake :=
  { client with links := Function.update client.links endpoint reached }

/-- One step of the client. A browser or resolver runs from the moment it was
created, so `Start` finds it running and makes it report nothing again. -/
def exec (client : Handshake) : ClientOp → Handshake
  | .call endpoint => client.link endpoint .created
  | .createProxy endpoint => client.link endpoint .matched
  | .remember item =>
      { client with nameToResolver := client.nameToResolver.insert item.name item }
  | .connect endpoint => client.link endpoint .connected
  | .start _ => client

def clientStep (client : Handshake) : Option Handshake :=
  match client.program with
  | op :: rest => some ({ client with program := rest }.exec op)
  | [] => client.bus.take.map fun (signal, bus) =>
      { client with bus, program := client.handler signal }

/-- The daemon emits a signal of an object that exists. -/
def daemonStep (client : Handshake) (signal : BusSignal) : Option Handshake :=
  if client.links signal.source ≠ .absent ∧ signal ∉ client.bus.posted then
    some { client with
      bus := client.bus.post (client.links signal.source = .connected) signal }
  else none

/-- All messages are delivered and the client has nothing left to do. -/
def Quiescent (client : Handshake) : Prop :=
  client.program = [] ∧ client.bus.inbox = []

end Handshake

inductive HandshakeEvent where
  | client
  | daemon (signal : BusSignal)
  deriving DecidableEq, Repr

def handshake : Machine Handshake HandshakeEvent where
  init := .initial
  step client event :=
    match event with
    | .client => client.clientStep
    | .daemon signal => client.daemonStep signal

/-- A signal about a video sender is emitted while the client still has to
connect its handler. -/
def TooEarly (before : List HandshakeEvent) : HandshakeEvent → Prop
  | .client => False
  | .daemon signal => signal.isVideoSender ∧
      ∀ client, handshake.run before = some client → .connect signal.source ∈ client.program

namespace Handshake

@[simp] theorem link_self (client : Handshake) (endpoint : Endpoint) (reached : Link) :
    (client.link endpoint reached).links endpoint = reached :=
  Function.update_self ..

theorem link_of_ne (client : Handshake) {endpoint other : Endpoint} (hne : other ≠ endpoint)
    (reached : Link) : (client.link endpoint reached).links other = client.links other :=
  Function.update_of_ne hne ..

@[simp] theorem exec_bus (client : Handshake) (op : ClientOp) :
    (client.exec op).bus = client.bus := by
  cases op <;> rfl

theorem clientStep_bus {client client' : Handshake} (h : client.clientStep = some client') :
    client'.bus.posted = client.bus.posted ∧ client'.bus.dropped = client.bus.dropped := by
  unfold clientStep at h
  split at h
  · obtain rfl := Option.some.inj h
    simp
  · obtain ⟨⟨signal, bus⟩, htake, rfl⟩ := Option.map_eq_some_iff.mp h
    exact (Mailbox.take_eq_some htake).2.2

/-- The daemon emits every signal at most once. -/
theorem posted_nodup (events : List HandshakeEvent) (client : Handshake)
    (h : handshake.run events = some client) : client.bus.posted.Nodup := by
  refine Machine.run_induction handshake (P := fun _ client => client.bus.posted.Nodup)
    List.nodup_nil ?_ events client h
  intro before client event client' _ ih hstep
  cases event with
  | client => rwa [(clientStep_bus hstep).1]
  | daemon signal =>
      obtain ⟨⟨_, hfresh⟩, hstep⟩ := Option.ite_none_right_eq_some.mp hstep
      obtain rfl := Option.some.inj hstep
      rw [Mailbox.post_posted]
      refine List.nodup_append.mpr ⟨ih, List.nodup_singleton signal, ?_⟩
      intro posted hposted last hlast
      obtain rfl := List.mem_singleton.mp hlast
      rintro rfl
      exact hfresh hposted

/-- A procedure that connects each object it asks for, once and later on. -/
def Orderly : List ClientOp → Prop
  | [] => True
  | .call endpoint :: rest =>
      .connect endpoint ∈ rest ∧ .call endpoint ∉ rest ∧ Orderly rest
  | .createProxy endpoint :: rest =>
      .connect endpoint ∈ rest ∧ .call endpoint ∉ rest ∧ Orderly rest
  | .connect endpoint :: rest =>
      .connect endpoint ∉ rest ∧ .call endpoint ∉ rest ∧ Orderly rest
  | .remember _ :: rest | .start _ :: rest => Orderly rest

theorem orderly_initializeOps : Orderly initializeOps := by
  simp [initializeOps, browse, Orderly]

theorem orderly_handler (client : Handshake) (signal : BusSignal) :
    Orderly (client.handler signal) := by
  unfold handler
  split
  · split
    · trivial
    · simp [Orderly]
  · simp [Orderly]
  · trivial

/-- Handlers are about the resolver of the service they are told of. -/
theorem endpoint_of_mem_handler {client : Handshake} {signal : BusSignal} {op : ClientOp}
    {endpoint : Endpoint} (hop : op ∈ client.handler signal)
    (hendpoint : op.endpoint? = some endpoint) :
    ∃ type item, signal = .itemNew type item ∧ endpoint = .resolver type item := by
  unfold handler at hop
  split at hop
  · rename_i item
    split at hop
    · cases hop
    · refine ⟨.videoSender, item, rfl, ?_⟩
      simp only [List.mem_cons, List.not_mem_nil, or_false] at hop
      rcases hop with rfl | rfl | rfl | rfl
      · exact (Option.some.inj hendpoint).symm
      · exact (Option.some.inj hendpoint).symm
      · cases hendpoint
      · exact (Option.some.inj hendpoint).symm
  · rename_i item
    refine ⟨.http, item, rfl, ?_⟩
    simp only [List.mem_cons, List.not_mem_nil, or_false] at hop
    rcases hop with rfl | rfl | rfl
    · exact (Option.some.inj hendpoint).symm
    · exact (Option.some.inj hendpoint).symm
    · exact (Option.some.inj hendpoint).symm
  · cases hop

/-- Where the client is in its procedures is what the bus sees of it: what it
still has to ask for does not exist, what exists is connected unless the client
still has to do that, and it asks for the resolvers of services it was told of. -/
structure InOrder (client : Handshake) : Prop where
  orderly : Orderly client.program
  calls : ∀ endpoint, .call endpoint ∈ client.program → client.links endpoint = .absent
  connected : ∀ endpoint, client.links endpoint ≠ .absent →
    (client.links endpoint = .connected ↔ .connect endpoint ∉ client.program)
  asked : ∀ type item, (client.links (.resolver type item) ≠ .absent ∨
      ∃ op ∈ client.program, op.endpoint? = some (.resolver type item)) →
    .itemNew type item ∈ client.bus.handled

theorem initial_inOrder : initial.InOrder where
  orderly := orderly_initializeOps
  calls := fun _ _ => rfl
  connected := fun _ h => absurd rfl h
  asked := by
    rintro type item (hlink | ⟨op, hop, hendpoint⟩)
    · exact absurd rfl hlink
    · simp only [initial, initializeOps, browse, List.cons_append, List.nil_append, List.mem_cons,
        List.not_mem_nil, or_false] at hop
      rcases hop with rfl | rfl | rfl | rfl | rfl | rfl | rfl | rfl <;> cases hendpoint

namespace InOrder

variable {client client' : Handshake} {op : ClientOp} {rest : List ClientOp}

theorem mem_program (hprogram : client.program = op :: rest) {other : ClientOp}
    (hother : other ∈ rest) : other ∈ client.program := by
  rw [hprogram]
  exact List.mem_cons_of_mem op hother

/-- The client has come further with one object. -/
theorem link (h : client.InOrder) (hprogram : client.program = op :: rest) {endpoint : Endpoint}
    {reached : Link} (hop : op.endpoint? = some endpoint) (horderly : Orderly rest)
    (hcall : .call endpoint ∉ rest)
    (hconnect : reached = .connected ↔ .connect endpoint ∉ rest) :
    (({ client with program := rest } : Handshake).link endpoint reached).InOrder := by
  refine ⟨horderly, ?_, ?_, ?_⟩
  · intro other hother
    have hne : other ≠ endpoint := by
      rintro rfl
      exact hcall hother
    rw [link_of_ne _ hne]
    exact h.calls other (mem_program hprogram hother)
  · intro other hother
    by_cases hne : other = endpoint
    · subst hne
      rw [link_self]
      exact hconnect
    · rw [link_of_ne _ hne] at hother ⊢
      rw [h.connected other hother, hprogram, List.mem_cons, not_or]
      -- The step that was made is about another object.
      refine and_iff_right ?_
      rintro rfl
      exact hne (Option.some.inj hop)
  · rintro type item (hlink | ⟨other, hother, hendpoint⟩)
    · by_cases hne : .resolver type item = endpoint
      · refine h.asked type item (Or.inr ⟨op, ?_, hne ▸ hop⟩)
        rw [hprogram]
        exact List.mem_cons_self ..
      · rw [link_of_ne _ hne] at hlink
        exact h.asked type item (Or.inl hlink)
    · exact h.asked type item (Or.inr ⟨other, mem_program hprogram hother, hendpoint⟩)

/-- A step that only the client sees. -/
theorem internal (h : client.InOrder) (hprogram : client.program = op :: rest)
    (horderly : Orderly rest) (hop : ∀ endpoint, op ≠ .connect endpoint)
    (nameToResolver : QMap String ServiceItem) :
    ({ client with program := rest, nameToResolver } : Handshake).InOrder := by
  refine ⟨horderly, fun endpoint hcall => h.calls endpoint (mem_program hprogram hcall), ?_, ?_⟩
  · intro endpoint hlink
    rw [h.connected endpoint hlink, hprogram, List.mem_cons, not_or]
    exact and_iff_right fun hsame => hop endpoint hsame.symm
  · rintro type item (hlink | ⟨other, hother, hendpoint⟩)
    · exact h.asked type item (Or.inl hlink)
    · exact h.asked type item (Or.inr ⟨other, mem_program hprogram hother, hendpoint⟩)

theorem exec (h : client.InOrder) (hprogram : client.program = op :: rest) :
    (({ client with program := rest } : Handshake).exec op).InOrder := by
  have horderly := h.orderly
  rw [hprogram] at horderly
  cases op with
  | call endpoint | createProxy endpoint =>
      obtain ⟨hconnect, hcall, hrest⟩ := horderly
      exact h.link hprogram rfl hrest hcall (iff_of_false (by decide) (not_not.mpr hconnect))
  | connect endpoint =>
      obtain ⟨hconnect, hcall, hrest⟩ := horderly
      exact h.link hprogram rfl hrest hcall (iff_of_true rfl hconnect)
  | remember item => exact h.internal hprogram horderly (fun _ hsame => by cases hsame) _
  | start endpoint => exact h.internal hprogram horderly (fun _ hsame => by cases hsame) _

/-- A signal comes once, so that nobody has asked for its resolver before. -/
theorem deliver (h : client.InOrder) (hnodup : client.bus.posted.Nodup)
    (hprogram : client.program = []) {signal : BusSignal} {bus : Mailbox BusSignal}
    (htake : client.bus.take = some (signal, bus)) :
    ({ client with bus, program := client.handler signal } : Handshake).InOrder := by
  have hhandled : bus.handled = client.bus.handled ++ [signal] := (Mailbox.take_eq_some htake).2.1
  have habsent {op : ClientOp} {endpoint : Endpoint} (hop : op ∈ client.handler signal)
      (hendpoint : op.endpoint? = some endpoint) : client.links endpoint = .absent := by
    obtain ⟨type, item, rfl, rfl⟩ := endpoint_of_mem_handler hop hendpoint
    by_contra hlink
    exact Mailbox.take_fresh hnodup htake (h.asked type item (Or.inl hlink))
  refine ⟨client.orderly_handler signal, fun endpoint hcall => habsent hcall rfl, ?_, ?_⟩
  · intro endpoint hlink
    have hconnected : client.links endpoint = .connected := by
      rw [h.connected endpoint hlink, hprogram]
      exact List.not_mem_nil
    exact iff_of_true hconnected fun hconnect => hlink (habsent hconnect rfl)
  · rw [hhandled]
    rintro type item (hlink | ⟨op, hop, hendpoint⟩)
    · exact List.mem_append_left _ (h.asked type item (Or.inl hlink))
    · obtain ⟨_, _, rfl, hresolver⟩ := endpoint_of_mem_handler hop hendpoint
      obtain ⟨rfl, rfl⟩ := Endpoint.resolver.inj hresolver
      exact List.mem_append_right _ (List.mem_singleton_self _)

theorem clientStep (h : client.InOrder) (hnodup : client.bus.posted.Nodup)
    (hstep : client.clientStep = some client') : client'.InOrder := by
  unfold Handshake.clientStep at hstep
  split at hstep
  · rename_i hprogram
    obtain rfl := Option.some.inj hstep
    exact h.exec hprogram
  · rename_i hprogram
    obtain ⟨⟨signal, bus⟩, htake, rfl⟩ := Option.map_eq_some_iff.mp hstep
    exact h.deliver hnodup hprogram htake

theorem daemonStep (h : client.InOrder) {signal : BusSignal}
    (hstep : client.daemonStep signal = some client') : client'.InOrder := by
  obtain ⟨_, hstep⟩ := Option.ite_none_right_eq_some.mp hstep
  obtain rfl := Option.some.inj hstep
  refine ⟨h.orderly, h.calls, h.connected, ?_⟩
  rw [Mailbox.post_handled]
  exact h.asked

end InOrder

theorem run_inOrder (events : List HandshakeEvent) (client : Handshake)
    (h : handshake.run events = some client) : client.InOrder := by
  refine handshake.run_induction (P := fun _ client => client.InOrder) initial_inOrder ?_ events
    client h
  intro before client event client' hrun hclient hstep
  cases event with
  | client => exact hclient.clientStep (posted_nodup before client hrun) hstep
  | daemon signal => exact hclient.daemonStep hstep

/-- What was dropped came too early: the daemon drops a signal while its handler
is not connected, and that is while the client still has to connect it. -/
theorem none_dropped_iff (events : List HandshakeEvent) (client : Handshake)
    (h : handshake.run events = some client) :
    (∀ signal ∈ client.bus.dropped, ¬ signal.isVideoSender) ↔
      Throughout (fun before event => ¬ TooEarly before event) events := by
  refine handshake.run_induction (P := fun events client =>
    (∀ signal ∈ client.bus.dropped, ¬ signal.isVideoSender) ↔
      Throughout (fun before event => ¬ TooEarly before event) events) ?_ ?_ events client h
  · exact iff_of_true (fun signal hsignal => absurd hsignal List.not_mem_nil) Throughout.nil
  · intro before client event client' hrun ih hstep
    rw [Throughout.snoc, ← ih]
    cases event with
    | client => simp [(clientStep_bus hstep).2, TooEarly]
    | daemon signal =>
        obtain ⟨⟨hexists, _⟩, hstep⟩ := Option.ite_none_right_eq_some.mp hstep
        obtain rfl := Option.some.inj hstep
        have hconnected := (run_inOrder before client hrun).connected signal.source hexists
        simp only [Mailbox.post_dropped, TooEarly, hrun, Option.some.injEq, forall_eq',
          hconnected, decide_eq_true_eq]
        by_cases hpending : .connect signal.source ∈ client.program
        · simp [hpending, or_imp, forall_and]
        · simp [hpending]

/-- What the client still has to do. A handler has at most four steps. -/
def work (client : Handshake) : Nat :=
  client.program.length + 5 * client.bus.inbox.length

theorem handler_length (client : Handshake) (signal : BusSignal) :
    (client.handler signal).length ≤ 4 := by
  unfold handler
  split
  · split <;> simp
  · simp
  · simp

theorem clientStep_work (client : Handshake) (h : ¬ client.Quiescent) :
    ∃ client', client.clientStep = some client' ∧ client'.work < client.work := by
  cases hprogram : client.program with
  | cons op rest =>
      refine ⟨({ client with program := rest } : Handshake).exec op,
        by simp [clientStep, hprogram], ?_⟩
      have hlength : (({ client with program := rest } : Handshake).exec op).program = rest := by
        cases op <;> rfl
      simp only [work, hlength, exec_bus, hprogram, List.length_cons]
      omega
  | nil =>
      have hinbox : client.bus.inbox ≠ [] := fun hempty => h ⟨hprogram, hempty⟩
      obtain ⟨⟨signal, bus⟩, htake⟩ :=
        Option.isSome_iff_exists.mp (client.bus.take_isSome.mpr hinbox)
      refine ⟨{ client with bus, program := client.handler signal },
        by simp [clientStep, hprogram, htake], ?_⟩
      have hhandler := client.handler_length signal
      have htail := (Mailbox.take_eq_some htake).1
      simp only [work, hprogram, htail, List.length_cons, List.length_nil]
      omega

/-- The client alone can always finish: the messages of every run can be
delivered. -/
theorem drains (client : Handshake) :
    ∃ n client', handshake.runFrom client (List.replicate n .client) = some client' ∧
      client'.Quiescent := by
  induction hwork : client.work using Nat.strong_induction_on generalizing client with
  | h work ih =>
      by_cases hquiescent : client.Quiescent
      · exact ⟨0, client, rfl, hquiescent⟩
      · obtain ⟨next, hstep, hless⟩ := client.clientStep_work hquiescent
        obtain ⟨n, client', hrun, hdone⟩ := ih next.work (hwork ▸ hless) next rfl
        refine ⟨n + 1, client', ?_, hdone⟩
        change Option.bind (client.clientStep) _ = some client'
        rw [hstep]
        exact hrun

/-- Once all messages are delivered, every video sender the daemon reported has
reached `signalVideoSenderNew` and every one it resolved has reached
`resolvedVideoSenderFound`, exactly when the daemon emitted no such signal
between serving the request and the client's connecting its handler. -/
theorem nothing_lost_iff (events : List HandshakeEvent) (client : Handshake)
    (h : handshake.run events = some client) (hquiescent : client.Quiescent) :
    (∀ signal ∈ client.bus.posted, signal.isVideoSender → signal ∈ client.bus.handled) ↔
      Throughout (fun before event => ¬ TooEarly before event) events := by
  rw [client.bus.all_handled_iff (posted_nodup events client h) hquiescent.2]
  exact none_dropped_iff events client h

/-- A camera that is reported and resolved after the handlers are connected. -/
theorem nothing_lost_in_time :
    ∃ client, handshake.run
        (List.replicate 8 .client ++ [.daemon (.itemNew .videoSender ⟨2, 0, "yard"⟩)] ++
          List.replicate 5 .client ++ [.daemon (.found ⟨2, 0, "yard"⟩), .client]) =
            some client ∧
      ∀ signal ∈ client.bus.posted, signal.isVideoSender → signal ∈ client.bus.handled := by
  refine ⟨_, rfl, ?_⟩
  refine (nothing_lost_iff
    (List.replicate 8 .client ++ [.daemon (.itemNew .videoSender ⟨2, 0, "yard"⟩)] ++
      List.replicate 5 .client ++ [.daemon (.found ⟨2, 0, "yard"⟩), .client]) _ rfl
    ⟨rfl, rfl⟩).mpr ?_
  refine (none_dropped_iff
    (List.replicate 8 .client ++ [.daemon (.itemNew .videoSender ⟨2, 0, "yard"⟩)] ++
      List.replicate 5 .client ++ [.daemon (.found ⟨2, 0, "yard"⟩), .client]) _ rfl).mp ?_
  intro signal hsignal
  cases hsignal

/-- A camera reported between `ServiceBrowserNew` and the connecting of
`ItemNew`, and one resolved between `ServiceResolverNew` and the connecting of
`Found`: neither ever reaches its handler. -/
theorem report_lost_in_window :
    (∃ client, handshake.run
        ([.client, .daemon (.itemNew .videoSender ⟨2, 0, "yard"⟩)] ++
          List.replicate 7 .client) = some client ∧
      client.Quiescent ∧ .itemNew .videoSender ⟨2, 0, "yard"⟩ ∈ client.bus.posted ∧
      client.bus.handled = []) ∧
    ∃ client, handshake.run
        (List.replicate 8 .client ++ [.daemon (.itemNew .videoSender ⟨2, 0, "yard"⟩),
          .client, .client, .daemon (.found ⟨2, 0, "yard"⟩)] ++ List.replicate 3 .client) =
        some client ∧
      client.Quiescent ∧ .found ⟨2, 0, "yard"⟩ ∈ client.bus.posted ∧
      client.bus.handled = [.itemNew .videoSender ⟨2, 0, "yard"⟩] :=
  ⟨⟨_, rfl, ⟨rfl, rfl⟩, by decide, rfl⟩, ⟨_, rfl, ⟨rfl, rfl⟩, by decide, rfl⟩⟩

end Handshake

end NvmrDisplay.Dbus
