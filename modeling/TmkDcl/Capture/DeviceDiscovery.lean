import TmkDcl.Bytes

/-!
# Discovery of the cameras (libcapture/src/device.c, gvcp.c)

Every interface has the datagrams that wait on its socket. The listener takes those of its subnet,
a device is added for each of them, and then `gvcp_discovery_ack` looks at what it is.
Addresses are in host order.
-/

namespace TmkDcl.Capture.Discovery

/-! ### Constants of gvcp.h -/

def gvDeviceBufferSize : ℕ := 16 * 1024
def gvcpHeaderSize : ℕ := 8
def gvcpDiscoveryDataSize : ℕ := 0xf8
def gvcpCommandDiscoveryAck : ℕ := 0x0003

def gvcpManufacturerNameOffset : ℕ := 0x48
def gvcpManufacturerNameSize : ℕ := 32
def gvcpModelNameOffset : ℕ := 0x68
def gvcpModelNameSize : ℕ := 32
def gvcpSerialNumberOffset : ℕ := 0xd8
def gvcpSerialNumberSize : ℕ := 16
def gvcpUserDefinedNameOffset : ℕ := 0xe8
def gvcpUserDefinedNameSize : ℕ := 16
def gvcpDeviceMacAddressHighOffset : ℕ := 0x08

/-- `sizeof dev->mac`. -/
def macSize : ℕ := 18

/-! ### Datagrams -/

/-- A datagram and its sender; `junk` is what `malloc` has left in the buffer behind it. -/
structure Datagram where
  sender : BitVec 32
  port : BitVec 16
  bytes : Bytes
  junk : Bytes
  deriving DecidableEq

/-- What `recvfrom` stores. -/
def Datagram.received (d : Datagram) : Bytes := d.bytes.take gvDeviceBufferSize

/-- The buffer with the packet. -/
def Datagram.packet (d : Datagram) : Bytes := d.received ++ d.junk

/-- The bytes behind the header. -/
def Datagram.data (d : Datagram) : Bytes := d.packet.drop gvcpHeaderSize

def Datagram.command (d : Datagram) : ℕ := beNat ((d.packet.drop 2).take 2)

def Datagram.id (d : Datagram) : ℕ := beNat ((d.packet.drop 6).take 2)

structure Interface where
  addr : BitVec 32
  netmask : BitVec 32
  deriving DecidableEq

/-- The datagrams that an interface ignores are its own, unless it is a loopback, and those of
other subnets (`device.c:76-87`). -/
def Interface.accepts (iface : Interface) (remote : BitVec 32) : Bool :=
  !(iface.addr == remote && iface.addr &&& iface.netmask != 0x7f000000) &&
    iface.addr &&& iface.netmask == remote &&& iface.netmask

/-- `listen_discovery_answer`: the first packet that is not ignored, and the datagrams behind it. -/
def listenDiscoveryAnswer (iface : Interface) : List Datagram → Option (Datagram × List Datagram)
  | [] => none
  | d :: waiting =>
    if d.received.length ≤ gvcpHeaderSize then listenDiscoveryAnswer iface waiting
    else if iface.accepts d.sender then some (d, waiting)
    else listenDiscoveryAnswer iface waiting

/-! ### Devices -/

structure Device where
  ip : BitVec 32
  port : BitVec 16
  ifaceAddr : BitVec 32
  vendor : Bytes
  model : Bytes
  serial : Bytes
  userId : Bytes
  mac : Bytes
  deriving DecidableEq

/-- `device_create`: the strings that a camera tells are empty. -/
def deviceCreate (ifaceAddr ip : BitVec 32) (port : BitVec 16) : Device :=
  ⟨ip, port, ifaceAddr, [], [], [], [], []⟩

/-- `%02hhx`. -/
def hexByte (b : UInt8) : Bytes :=
  [b / 16, b % 16].map fun d => if d < 10 then 48 + d else 87 + d

/-- The address of the device, byte for byte. -/
def macText (data : Bytes) : Bytes :=
  [58].intercalate <| (List.range 6).map fun i =>
    hexByte (data.getD (gvcpDeviceMacAddressHighOffset + 2 + i) 0)

/-- What `strcpy` copies from an offset of the data. -/
def Datagram.field (d : Datagram) (offset : ℕ) : Bytes := cString (d.data.drop offset)

/-- The packet is an answer to the discovery. -/
def Datagram.isAck (d : Datagram) : Bool := d.command == gvcpCommandDiscoveryAck && d.id == 0xffff

/-- `gvcp_discovery_ack`, which returns 0 for every packet. -/
def gvcpDiscoveryAck (dev : Device) (d : Datagram) : Device :=
  if d.isAck then
    { dev with
      vendor := d.field gvcpManufacturerNameOffset
      model := d.field gvcpModelNameOffset
      serial := d.field gvcpSerialNumberOffset
      userId := d.field gvcpUserDefinedNameOffset
      mac := macText d.data }
  else dev

/-- The device that is made of a packet. -/
def deviceOf (iface : Interface) (d : Datagram) : Device :=
  gvcpDiscoveryAck (deviceCreate iface.addr d.sender d.port) d

theorem listen_length {iface : Interface} {waiting rest : List Datagram} {d : Datagram}
    (h : listenDiscoveryAnswer iface waiting = some (d, rest)) : rest.length < waiting.length := by
  induction waiting with
  | nil => cases h
  | cons d' waiting ih =>
    unfold listenDiscoveryAnswer at h
    split at h
    · exact Nat.lt_succ_of_lt (ih h)
    · split at h
      · cases h
        exact Nat.lt_succ_self _
      · exact Nat.lt_succ_of_lt (ih h)

/-- The inner loop of `prepare_devices_list`: `device_add` for each packet. -/
def addDevices (iface : Interface) (waiting : List Datagram) (devs : List Device) : List Device :=
  match _h : listenDiscoveryAnswer iface waiting with
  | none => devs
  | some (d, rest) => addDevices iface rest (devs ++ [deviceOf iface d])
termination_by waiting.length
decreasing_by exact listen_length _h

/-- `prepare_devices_list`, over the interfaces and what waits on them. -/
def prepareDevicesList (ifaces : List (Interface × List Datagram)) : List Device :=
  ifaces.foldl (fun devs net => addDevices net.1 net.2 devs) []

/-! ### What is asked of the list -/

/-- An answer to the discovery with every field that is copied. -/
def Datagram.wellFormed (d : Datagram) : Bool :=
  d.isAck && gvcpHeaderSize + gvcpDiscoveryDataSize ≤ d.received.length

/-- The fields that are copied, with their offsets and sizes. -/
def ackFields : List (ℕ × ℕ) :=
  [(gvcpManufacturerNameOffset, gvcpManufacturerNameSize),
    (gvcpModelNameOffset, gvcpModelNameSize), (gvcpSerialNumberOffset, gvcpSerialNumberSize),
    (gvcpUserDefinedNameOffset, gvcpUserDefinedNameSize)]

/-- The string of a field ends within the bytes received, and has room at its destination, which is
one byte larger than the field. -/
structure Datagram.Copied (d : Datagram) (offset size : ℕ) : Prop where
  within : gvcpHeaderSize + offset + (d.field offset).length < d.received.length
  fits : (d.field offset).length + 1 ≤ size + 1

/-- A datagram that the listener gives to `prepare_devices_list`. -/
def Accepted (iface : Interface) (d : Datagram) : Prop :=
  gvcpHeaderSize < d.received.length ∧ iface.accepts d.sender = true

instance (iface : Interface) (d : Datagram) : Decidable (Accepted iface d) :=
  inferInstanceAs (Decidable (_ ∧ _))

/-- The list has a device for each well-formed answer in a subnet, and no other, and what is copied
is in the datagrams and fits. -/
structure ListsAnswers (ifaces : List (Interface × List Datagram)) : Prop where
  devices : prepareDevicesList ifaces = ifaces.flatMap fun net =>
    (net.2.filter fun d => d.wellFormed && net.1.accepts d.sender).map (deviceOf net.1)
  fields : ∀ net ∈ ifaces, ∀ d ∈ net.2, Accepted net.1 d → d.isAck = true →
    ∀ f ∈ ackFields, d.Copied f.1 f.2
  mac : ∀ net ∈ ifaces, ∀ d ∈ net.2, Accepted net.1 d → d.isAck = true →
    gvcpHeaderSize + gvcpDeviceMacAddressHighOffset + 8 ≤ d.received.length ∧
      (macText d.data).length + 1 ≤ macSize

/-- All that the listener takes, over the interfaces. -/
def accepted (ifaces : List (Interface × List Datagram)) : List Datagram :=
  ifaces.flatMap fun net => net.2.filter (Accepted net.1 ·)

/-- The well-formed answers of the subnets. -/
def answers (ifaces : List (Interface × List Datagram)) : List Datagram :=
  ifaces.flatMap fun net => net.2.filter fun d => d.wellFormed && net.1.accepts d.sender

/-! ### Every accepted datagram becomes a device -/

theorem filter_listen (iface : Interface) (waiting : List Datagram) :
    waiting.filter (Accepted iface ·) =
      match listenDiscoveryAnswer iface waiting with
      | none => []
      | some (d, rest) => d :: rest.filter (Accepted iface ·) := by
  induction waiting with
  | nil => rfl
  | cons d waiting ih =>
    rw [listenDiscoveryAnswer, List.filter_cons]
    by_cases hlong : d.received.length ≤ gvcpHeaderSize
    · have hshort : ¬ Accepted iface d := fun hacc => Nat.not_lt.mpr hlong hacc.1
      rw [if_pos hlong, if_neg (by simpa using hshort)]
      exact ih
    · by_cases hacc : iface.accepts d.sender = true
      · rw [if_neg hlong, if_pos hacc, if_pos (by simp [Accepted, hacc, Nat.lt_of_not_le hlong])]
      · rw [if_neg hlong, if_neg hacc, if_neg (by simp [Accepted, hacc])]
        exact ih

theorem addDevices_eq (iface : Interface) (waiting : List Datagram) (devs : List Device) :
    addDevices iface waiting devs =
      devs ++ (waiting.filter (Accepted iface ·)).map (deviceOf iface) := by
  induction waiting, devs using addDevices.induct iface with
  | case1 waiting devs hnone =>
    rw [addDevices, filter_listen, hnone, List.map_nil, List.append_nil]
  | case2 waiting devs d rest hsome ih =>
    rw [addDevices, filter_listen, hsome]
    simp only [List.map_cons]
    rw [ih, List.append_assoc]
    rfl

theorem prepareDevicesList_eq (ifaces : List (Interface × List Datagram)) :
    prepareDevicesList ifaces =
      ifaces.flatMap fun net => (net.2.filter (Accepted net.1 ·)).map (deviceOf net.1) := by
  have hfold : ∀ devs, ifaces.foldl (fun devs net => addDevices net.1 net.2 devs) devs =
      devs ++ ifaces.flatMap fun net =>
        (net.2.filter (Accepted net.1 ·)).map (deviceOf net.1) := by
    induction ifaces with
    | nil => exact fun devs => (List.append_nil devs).symm
    | cons net ifaces ih =>
      intro devs
      rw [List.foldl_cons, ih, addDevices_eq, List.flatMap_cons, List.append_assoc]
  exact hfold []

/-! ### Which lists are right -/

theorem Datagram.length_of_wellFormed {d : Datagram} (h : d.wellFormed = true) :
    gvcpHeaderSize + gvcpDiscoveryDataSize ≤ d.received.length :=
  of_decide_eq_true (Bool.and_eq_true_iff.mp h).2

theorem Accepted.of_wellFormed {iface : Interface} {d : Datagram} (hwf : d.wellFormed = true)
    (hacc : iface.accepts d.sender = true) : Accepted iface d := by
  exact ⟨Nat.lt_of_lt_of_le (by decide) (Datagram.length_of_wellFormed hwf), hacc⟩

theorem answers_sublist (ifaces : List (Interface × List Datagram)) :
    (answers ifaces).Sublist (accepted ifaces) := by
  induction ifaces with
  | nil => exact List.Sublist.refl _
  | cons net ifaces ih =>
    unfold answers accepted at ih ⊢
    rw [List.flatMap_cons, List.flatMap_cons]
    apply List.Sublist.append _ ih
    apply List.monotone_filter_right
    intro d hd
    obtain ⟨hwf, hacc⟩ := Bool.and_eq_true_iff.mp hd
    exact decide_eq_true (Accepted.of_wellFormed hwf hacc)

/-- There are as many devices as answers only if every datagram that is taken is one. -/
theorem devices_eq_iff (ifaces : List (Interface × List Datagram)) :
    (prepareDevicesList ifaces = ifaces.flatMap fun net =>
        (net.2.filter fun d => d.wellFormed && net.1.accepts d.sender).map (deviceOf net.1)) ↔
      ∀ net ∈ ifaces, ∀ d ∈ net.2, Accepted net.1 d → d.wellFormed = true := by
  rw [prepareDevicesList_eq]
  constructor
  · intro heq net hnet d hd hacc
    have hlength : (answers ifaces).length = (accepted ifaces).length := by
      have hcount := congrArg List.length heq
      simp only [List.length_flatMap, List.length_map] at hcount
      simp only [answers, accepted, List.length_flatMap]
      exact hcount.symm
    have hsame := (answers_sublist ifaces).eq_of_length hlength
    have hmem : d ∈ accepted ifaces :=
      List.mem_flatMap.mpr ⟨net, hnet, List.mem_filter.mpr ⟨hd, decide_eq_true hacc⟩⟩
    rw [← hsame] at hmem
    obtain ⟨net', _, hans⟩ := List.mem_flatMap.mp hmem
    exact (Bool.and_eq_true_iff.mp (List.mem_filter.mp hans).2).1
  · intro hall
    apply List.flatMap_congr
    intro net hnet
    congr 1
    apply List.filter_congr
    intro d hd
    rw [Bool.eq_iff_iff, decide_eq_true_iff, Bool.and_eq_true]
    constructor
    · exact fun hacc => ⟨hall net hnet d hd hacc, hacc.2⟩
    · exact fun hans => Accepted.of_wellFormed hans.1 hans.2

theorem ackFields_within {f : ℕ × ℕ} (hf : f ∈ ackFields) :
    f.1 + f.2 ≤ gvcpDiscoveryDataSize := by
  have hall : (ackFields.all fun f => f.1 + f.2 ≤ gvcpDiscoveryDataSize) = true := by decide
  exact of_decide_eq_true (List.all_eq_true.mp hall f hf)

theorem Datagram.copied_iff {d : Datagram} {offset size : ℕ}
    (h : gvcpHeaderSize + offset ≤ d.received.length) :
    d.Copied offset size ↔ 0 ∈ (d.received.drop (gvcpHeaderSize + offset)).take (size + 1) := by
  have hfield : d.field offset =
      cString (d.received.drop (gvcpHeaderSize + offset) ++ d.junk) := by
    rw [Datagram.field, Datagram.data, Datagram.packet, List.drop_drop,
      List.drop_append_of_le_length h]
  rw [nul_mem_take_iff d.junk, ← hfield, List.length_drop]
  constructor
  · intro hcopied
    have hwithin := hcopied.within
    have hfits := hcopied.fits
    omega
  · intro hlt
    exact ⟨by omega, by omega⟩

/-- The list is right as long as the subnets send nothing but complete answers to the discovery. -/
theorem listsAnswers_iff (ifaces : List (Interface × List Datagram)) :
    ListsAnswers ifaces ↔ ∀ net ∈ ifaces, ∀ d ∈ net.2, Accepted net.1 d →
      d.wellFormed = true ∧
        ∀ f ∈ ackFields, 0 ∈ (d.received.drop (gvcpHeaderSize + f.1)).take (f.2 + 1) := by
  have hoffset : ∀ {d : Datagram}, d.wellFormed = true → ∀ f ∈ ackFields,
      gvcpHeaderSize + f.1 ≤ d.received.length := by
    intro d hwf f hf
    have hlong := d.length_of_wellFormed hwf
    have hin := ackFields_within hf
    omega
  constructor
  · intro hlists net hnet d hd hacc
    have hwf := (devices_eq_iff ifaces).mp hlists.devices net hnet d hd hacc
    have hack : d.isAck = true := (Bool.and_eq_true_iff.mp hwf).1
    refine ⟨hwf, ?_⟩
    intro f hf
    exact (Datagram.copied_iff (hoffset hwf f hf)).mp (hlists.fields net hnet d hd hacc hack f hf)
  · intro hall
    constructor
    · exact (devices_eq_iff ifaces).mpr fun net hnet d hd hacc => (hall net hnet d hd hacc).1
    · intro net hnet d hd hacc _ f hf
      obtain ⟨hwf, hnul⟩ := hall net hnet d hd hacc
      exact (Datagram.copied_iff (hoffset hwf f hf)).mpr (hnul f hf)
    · intro net hnet d hd hacc _
      have hlong := d.length_of_wellFormed (hall net hnet d hd hacc).1
      exact ⟨Nat.le_trans (by decide) hlong, Nat.le_of_eq rfl⟩

/-- Nine bytes from a host of the subnet make a device. -/
theorem short_datagram_listed :
    ¬ ListsAnswers [(⟨0xc0a80001, 0xffffff00⟩, [⟨0xc0a80005, 3956, List.replicate 9 0, []⟩])] := by
  intro hlists
  have hdevices := hlists.devices
  rw [prepareDevicesList_eq] at hdevices
  exact absurd hdevices (by decide)

end TmkDcl.Capture.Discovery
