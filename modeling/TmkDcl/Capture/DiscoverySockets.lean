import TmkDcl.Capture.DeviceDiscovery
import TmkDcl.Lifetime

/-!
# Sockets of the discovery (libcapture/src/interface.c, device.c)

Every interface gets a socket first, then the interfaces are listened to one after another, and at
the end all of them are deleted. A run logs what it does with the descriptors.
-/

namespace TmkDcl.Capture.DiscoverySockets

open TmkDcl.Lifetime TmkDcl.Capture.Discovery

abbrev Log := List (Act ℤ)

/-! ### What the kernel answers -/

/-- One turn of the loop in `listen_discovery_answer`, with the errors of `select` and `recvfrom`.
Those that end in `Again` are `EAGAIN` and `EINTR`. -/
inductive Event where
  | selectAgain
  | selectError
  | recvAgain
  | recvError
  | datagram (d : Datagram)

/-- An entry of `getifaddrs`, with what `socket` and `bind` return for it and what happens at its
socket until a timeout. -/
structure Ifaddr extends Interface where
  up : Bool
  pointToPoint : Bool
  inet : Bool
  socket : Option ℕ
  bound : Bool
  events : List Event

def Ifaddr.listed (ifa : Ifaddr) : Bool := ifa.up && !ifa.pointToPoint && ifa.inet

/-- A `struct interface` of the list. -/
structure SocketInterface extends Interface where
  fd : ℤ
  events : List Event

/-! ### The functions -/

/-- `send_broadcast_discovery`: `bind`, two `setsockopt` and `sendto`. An error of `bind` returns
without `close`. -/
def sendBroadcastDiscovery (ifa : Ifaddr) : ℤ × Log :=
  match ifa.socket with
  | none => (-1, [])
  | some fd =>
    if ifa.bound then (fd, [.acquire fd, .use fd, .use fd, .use fd, .use fd])
    else (-1, [.acquire fd, .use fd])

def interfaceAdd (ifa : Ifaddr) : SocketInterface :=
  { ifa with fd := (sendBroadcastDiscovery ifa).1 }

/-- `prepare_interfaces_list`; without `getifaddrs` there is none. -/
def prepareInterfacesList (ifap : Option (List Ifaddr)) : Option (List SocketInterface) × Log :=
  match ifap with
  | none => (none, [])
  | some ifas =>
    (some ((ifas.filter Ifaddr.listed).map interfaceAdd),
      (ifas.filter Ifaddr.listed).flatMap fun ifa => (sendBroadcastDiscovery ifa).2)

/-- `listen_discovery_answer`: every `NULL` comes with a `close`. -/
def listenDiscoveryAnswer (iface : SocketInterface) :
    List Event → Option (Datagram × List Event) × Log
  | [] => (none, [.use iface.fd, .release iface.fd])
  | .selectAgain :: events =>
    let r := listenDiscoveryAnswer iface events
    (r.1, .use iface.fd :: r.2)
  | .selectError :: _ => (none, [.use iface.fd, .release iface.fd])
  | .recvAgain :: events =>
    let r := listenDiscoveryAnswer iface events
    (r.1, .use iface.fd :: .use iface.fd :: r.2)
  | .recvError :: _ => (none, [.use iface.fd, .use iface.fd, .release iface.fd])
  | .datagram d :: events =>
    if gvcpHeaderSize < d.received.length ∧ iface.accepts d.sender = true then
      (some (d, events), [.use iface.fd, .use iface.fd])
    else
      let r := listenDiscoveryAnswer iface events
      (r.1, .use iface.fd :: .use iface.fd :: r.2)

theorem listen_length {iface : SocketInterface} {events rest : List Event} {d : Datagram}
    (h : (listenDiscoveryAnswer iface events).1 = some (d, rest)) :
    rest.length < events.length := by
  induction events with
  | nil => cases h
  | cons event events ih =>
    cases event with
    | selectAgain => exact Nat.lt_succ_of_lt (ih h)
    | selectError => cases h
    | recvAgain => exact Nat.lt_succ_of_lt (ih h)
    | recvError => cases h
    | datagram d' =>
      unfold listenDiscoveryAnswer at h
      split at h
      · cases h
        exact Nat.lt_succ_self _
      · exact Nat.lt_succ_of_lt (ih h)

/-- `ifaces_destroy`: `interface_delete` closes the descriptor of each interface. -/
def ifacesDestroy (ifaces : List SocketInterface) : Log := ifaces.map fun iface => .release iface.fd

section Loops

variable {β : Type*} (add : β → Interface → Datagram → β)

/-- The inner loop, over the packets of one interface. -/
def listenInterface (iface : SocketInterface) (events : List Event) (acc : β) : β × Log :=
  match _h : (listenDiscoveryAnswer iface events).1 with
  | none => (acc, (listenDiscoveryAnswer iface events).2)
  | some (d, rest) =>
    let r := listenInterface iface rest (add acc iface.toInterface d)
    (r.1, (listenDiscoveryAnswer iface events).2 ++ r.2)
termination_by events.length
decreasing_by exact listen_length _h

/-- The outer loop, over the interfaces. -/
def listenInterfaces : List SocketInterface → β → β × Log
  | [], acc => (acc, [])
  | iface :: ifaces, acc =>
    let r := listenInterface add iface iface.events acc
    let s := listenInterfaces ifaces r.1
    (s.1, r.2 ++ s.2)

/-- What `prepare_devices_list` and `devices_discovery` have in common. Without a list of interfaces
they read through NULL. -/
def discovery (init : β) (ifap : Option (List Ifaddr)) : Option β × Log :=
  match prepareInterfacesList ifap with
  | (none, log) => (none, log)
  | (some ifaces, log) =>
    let r := listenInterfaces add ifaces init
    (some r.1, log ++ r.2 ++ ifacesDestroy ifaces)

end Loops

/-- `prepare_devices_list`: `device_add` for each packet. -/
def prepareDevicesList (ifap : Option (List Ifaddr)) : Option (List Device) × Log :=
  discovery (fun devs iface d => devs ++ [deviceOf iface d]) [] ifap

/-- `devices_discovery`: every packet is printed and counted. -/
def devicesDiscovery (ifap : Option (List Ifaddr)) : Option ℕ × Log :=
  discovery (fun cnt _ _ => cnt + 1) 0 ifap

/-! ### What is asked of a run -/

/-- The descriptor is closed once, and not used behind that. -/
structure ClosedOnce (log : Log) (fd : ℤ) : Prop where
  once : log.count (.release fd) = 1
  unused : ∀ before after, log = before ++ .release fd :: after → .use fd ∉ after

def SocketsClosedOnce (log : Log) : Prop := ∀ fd, .acquire fd ∈ log → ClosedOnce log fd

/-- `send_broadcast_discovery` has got a socket. -/
def Opened (ifap : Option (List Ifaddr)) : Prop :=
  ∃ ifas ∈ ifap, ∃ ifa ∈ ifas, ifa.listed = true ∧ ifa.socket.isSome = true

/-! ### The list of devices -/

/-- The datagrams that are received before an error. -/
def received : List Event → List Datagram
  | [] => []
  | .selectAgain :: events => received events
  | .selectError :: _ => []
  | .recvAgain :: events => received events
  | .recvError :: _ => []
  | .datagram d :: events => d :: received events

theorem listen_received (iface : SocketInterface) (events : List Event) :
    Discovery.listenDiscoveryAnswer iface.toInterface (received events) =
      (listenDiscoveryAnswer iface events).1.map fun r => (r.1, received r.2) := by
  induction events with
  | nil => rfl
  | cons event events ih =>
    cases event with
    | selectAgain => exact ih
    | selectError => rfl
    | recvAgain => exact ih
    | recvError => rfl
    | datagram d =>
      rw [received, Discovery.listenDiscoveryAnswer, listenDiscoveryAnswer]
      by_cases hlong : d.received.length ≤ gvcpHeaderSize
      · rw [if_pos hlong, if_neg fun h => Nat.not_lt.mpr hlong h.1]
        exact ih
      · by_cases hacc : iface.accepts d.sender = true
        · rw [if_neg hlong, if_pos hacc, if_pos ⟨Nat.lt_of_not_le hlong, hacc⟩]
          rfl
        · rw [if_neg hlong, if_neg hacc, if_neg fun h => hacc h.2]
          exact ih

theorem listenInterface_devices (iface : SocketInterface) (events : List Event)
    (devs : List Device) :
    (listenInterface (fun devs iface d => devs ++ [deviceOf iface d]) iface events devs).1 =
      addDevices iface.toInterface (received events) devs := by
  induction events, devs using
    listenInterface.induct (fun devs iface d => devs ++ [deviceOf iface d]) iface with
  | case1 events devs hnone =>
    rw [listenInterface, addDevices, listen_received, hnone]
    rfl
  | case2 events devs d rest hsome ih =>
    rw [listenInterface, addDevices, listen_received, hsome]
    exact ih

/-- The runs with their interruptions and errors list what the datagrams before an error give. -/
theorem prepareDevicesList_devices (ifap : Option (List Ifaddr)) :
    (prepareDevicesList ifap).1 = (prepareInterfacesList ifap).1.map fun ifaces =>
      Discovery.prepareDevicesList
        (ifaces.map fun iface => (iface.toInterface, received iface.events)) := by
  have hfold : ∀ (ifaces : List SocketInterface) (devs : List Device),
      (listenInterfaces (fun devs iface d => devs ++ [deviceOf iface d]) ifaces devs).1 =
        (ifaces.map fun iface => (iface.toInterface, received iface.events)).foldl
          (fun devs net => addDevices net.1 net.2 devs) devs := by
    intro ifaces
    induction ifaces with
    | nil => exact fun _ => rfl
    | cons iface ifaces ih =>
      intro devs
      rw [List.map_cons, List.foldl_cons, ← listenInterface_devices]
      exact ih _
  cases ifap with
  | none => rfl
  | some ifas => exact congrArg some (hfold _ [])

/-! ### What a run does with the descriptors -/

/-- The listener uses its descriptor, and closes it when it returns `NULL`. -/
theorem listen_log (iface : SocketInterface) (events : List Event) :
    ∃ n, (listenDiscoveryAnswer iface events).2 = List.replicate n (.use iface.fd) ++
      if (listenDiscoveryAnswer iface events).1.isNone then [.release iface.fd] else [] := by
  induction events with
  | nil => exact ⟨1, rfl⟩
  | cons event events ih =>
    obtain ⟨n, hlog⟩ := ih
    cases event with
    | selectAgain => exact ⟨n + 1, congrArg (List.cons (Act.use iface.fd)) hlog⟩
    | selectError => exact ⟨1, rfl⟩
    | recvAgain => exact ⟨n + 2, congrArg ([Act.use iface.fd, Act.use iface.fd] ++ ·) hlog⟩
    | recvError => exact ⟨2, rfl⟩
    | datagram d =>
      rw [listenDiscoveryAnswer]
      split
      · exact ⟨2, rfl⟩
      · exact ⟨n + 2, congrArg ([Act.use iface.fd, Act.use iface.fd] ++ ·) hlog⟩

section Runs

variable {β : Type*} (add : β → Interface → Datagram → β) {fd : ℤ}

/-- An interface is listened to until a `NULL`, so that its descriptor is closed once here. -/
theorem listenInterface_log (iface : SocketInterface) (events : List Event) (acc : β) :
    ∃ n, (listenInterface add iface events acc).2 =
      List.replicate n (.use iface.fd) ++ [.release iface.fd] := by
  induction events, acc using listenInterface.induct add iface with
  | case1 events acc hnone =>
    obtain ⟨n, hlog⟩ := listen_log iface events
    rw [hnone] at hlog
    rw [listenInterface, hnone]
    exact ⟨n, hlog⟩
  | case2 events acc d rest hsome ih =>
    obtain ⟨n, hlog⟩ := listen_log iface events
    obtain ⟨m, hrest⟩ := ih
    rw [hsome, Option.isNone_some, if_neg Bool.false_ne_true, List.append_nil] at hlog
    rw [listenInterface, hsome]
    refine ⟨n + m, ?_⟩
    simp only
    rw [hlog, hrest, ← List.append_assoc, List.replicate_append_replicate]

theorem listenInterfaces_count (ifaces : List SocketInterface) (acc : β) :
    (listenInterfaces add ifaces acc).2.count (.release fd) =
      (ifaces.map SocketInterface.fd).count fd := by
  induction ifaces generalizing acc with
  | nil => rfl
  | cons iface ifaces ih =>
    obtain ⟨n, hlog⟩ := listenInterface_log add iface iface.events acc
    have hone : (listenInterface add iface iface.events acc).2.count (.release fd) =
        [iface.fd].count fd := by
      rw [hlog]
      simp [List.count_replicate, List.count_singleton]
    rw [listenInterfaces, List.count_append, hone, ih, ← List.count_append]
    rfl

theorem listenInterfaces_acquire (ifaces : List SocketInterface) (acc : β) :
    .acquire fd ∉ (listenInterfaces add ifaces acc).2 := by
  induction ifaces generalizing acc with
  | nil => exact List.not_mem_nil
  | cons iface ifaces ih =>
    obtain ⟨n, hlog⟩ := listenInterface_log add iface iface.events acc
    rw [listenInterfaces, List.mem_append, hlog]
    intro hmem
    cases hmem with
    | inl hnow => simp [List.mem_replicate] at hnow
    | inr hlater => exact ih _ hlater

theorem destroy_count (ifaces : List SocketInterface) :
    (ifacesDestroy ifaces).count (.release fd) = (ifaces.map SocketInterface.fd).count fd := by
  induction ifaces with
  | nil => rfl
  | cons iface ifaces ih =>
    rw [ifacesDestroy, List.map_cons, List.count_cons, List.map_cons, List.count_cons, ← ih,
      ifacesDestroy]
    simp

theorem send_release (ifa : Ifaddr) : .release fd ∉ (sendBroadcastDiscovery ifa).2 := by
  unfold sendBroadcastDiscovery
  cases ifa.socket with
  | none => exact List.not_mem_nil
  | some n =>
    cases ifa.bound with
    | false => simp
    | true => simp

theorem send_acquire {ifa : Ifaddr} :
    .acquire fd ∈ (sendBroadcastDiscovery ifa).2 ↔ ∃ n : ℕ, ifa.socket = some n ∧ fd = n := by
  unfold sendBroadcastDiscovery
  cases ifa.socket with
  | none => simp
  | some n =>
    cases ifa.bound with
    | false => simp
    | true => simp

theorem discovery_count (fd : ℤ) (init : β) (ifap : Option (List Ifaddr)) :
    ∃ n, (discovery add init ifap).2.count (.release fd) = n + n := by
  cases ifap with
  | none => exact ⟨0, rfl⟩
  | some ifas =>
    have hopen : ((ifas.filter Ifaddr.listed).flatMap fun ifa =>
        (sendBroadcastDiscovery ifa).2).count (.release fd) = 0 := by
      apply List.count_eq_zero.mpr
      intro hmem
      obtain ⟨ifa, _, hsend⟩ := List.mem_flatMap.mp hmem
      exact send_release ifa hsend
    refine ⟨(((ifas.filter Ifaddr.listed).map interfaceAdd).map SocketInterface.fd).count fd, ?_⟩
    simp only [discovery, prepareInterfacesList]
    rw [List.count_append, List.count_append, hopen, listenInterfaces_count, destroy_count,
      Nat.zero_add]

theorem discovery_acquire (init : β) (ifap : Option (List Ifaddr)) :
    (∃ fd, .acquire fd ∈ (discovery add init ifap).2) ↔ Opened ifap := by
  cases ifap with
  | none => simp [discovery, prepareInterfacesList, Opened]
  | some ifas =>
    simp only [discovery, prepareInterfacesList, List.mem_append]
    constructor
    · intro hacq
      obtain ⟨fd, (hopen | hlisten) | hdestroy⟩ := hacq
      · obtain ⟨ifa, hifa, hsend⟩ := List.mem_flatMap.mp hopen
        obtain ⟨hmem, hlisted⟩ := List.mem_filter.mp hifa
        obtain ⟨n, hsocket, _⟩ := send_acquire.mp hsend
        exact ⟨ifas, rfl, ifa, hmem, hlisted, Option.isSome_iff_exists.mpr ⟨n, hsocket⟩⟩
      · exact absurd hlisten (listenInterfaces_acquire add _ _)
      · simp [ifacesDestroy] at hdestroy
    · intro hopened
      obtain ⟨_, hifas, ifa, hmem, hlisted, hsocket⟩ := hopened
      cases hifas
      obtain ⟨n, hsocket⟩ := Option.isSome_iff_exists.mp hsocket
      exact ⟨n, .inl (.inl (List.mem_flatMap.mpr
        ⟨ifa, List.mem_filter.mpr ⟨hmem, hlisted⟩, send_acquire.mpr ⟨n, hsocket, rfl⟩⟩))⟩

theorem discovery_closedOnce (init : β) (ifap : Option (List Ifaddr)) :
    SocketsClosedOnce (discovery add init ifap).2 ↔ ¬ Opened ifap := by
  rw [← discovery_acquire add init ifap]
  constructor
  · intro hclosed hacq
    obtain ⟨fd, hacq⟩ := hacq
    have honce := (hclosed fd hacq).once
    obtain ⟨n, heven⟩ := discovery_count add fd init ifap
    omega
  · intro hnone fd hacq
    exact absurd ⟨fd, hacq⟩ hnone

end Runs

/-- No socket of the discovery is closed once: the descriptors that listen are closed by the listener
and again with their interface, and those that `bind` has refused are not closed. -/
theorem socketsClosedOnce_iff (ifap : Option (List Ifaddr)) :
    (SocketsClosedOnce (prepareDevicesList ifap).2 ↔ ¬ Opened ifap) ∧
      (SocketsClosedOnce (devicesDiscovery ifap).2 ↔ ¬ Opened ifap) :=
  ⟨discovery_closedOnce _ _ ifap, discovery_closedOnce _ _ ifap⟩

/-- An interface without a camera: its descriptor is closed at the timeout and with the list. -/
theorem silent_interface_closed_twice :
    ¬ SocketsClosedOnce (prepareDevicesList
      (some [⟨⟨0xc0a80001, 0xffffff00⟩, true, false, true, some 3, true, []⟩])).2 := by
  intro hclosed
  exact (discovery_closedOnce _ _ _).mp hclosed ⟨_, rfl, _, List.mem_singleton_self _, rfl, rfl⟩

end TmkDcl.Capture.DiscoverySockets
