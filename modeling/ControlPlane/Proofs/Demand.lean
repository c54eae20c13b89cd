/-
What the service is asked. A request is read back, by the slots of its message
type, as the demand that the call makes (`read?_encode`); and the demand tells
the call, but for a version that is not sent (`Asks.sent_eq`). So calls that ask
different things are never sent alike.
-/
import ControlPlane.Proofs.Decimal
import ControlPlane.Proofs.Message
import ControlPlane.Proofs.Methods

namespace ControlPlane

namespace Legacy

/-! ## Demands -/

/-- What a request asks of the service, once it has been read. -/
inductive Demand
  | modules
  | versions (module : Option String)
  | defaultVersion (module : Option String)
  | instances (module version : Option String)
  | setInstances (module version : Option String) (instances : Int)
  | start (module version : String)
  | stop (module version : Option String)
  | hostname (module version index : Option String)
  deriving DecidableEq, Repr

/-- The text in a slot that tells its absence, none in another. -/
def Message.optional (m : Message) (number : Nat) : Option String :=
  match m.datum? number with
  | some (.optional value) => value
  | _ => none

/-- How the service reads a request to a method, by the slots of its type. -/
def Demand.read? (method : String) (bytes : Bytes) : Option Demand :=
  match method with
  | "GetModules" => (Message.decode? .getModulesRequest bytes).map fun _ => modules
  | "GetVersions" =>
    (Message.decode? (.getVersionsRequest none) bytes).map fun m => versions (m.optional 1)
  | "GetDefaultVersion" =>
    (Message.decode? (.getDefaultVersionRequest none) bytes).map fun m =>
      defaultVersion (m.optional 1)
  | "GetNumInstances" =>
    (Message.decode? (.getNumInstancesRequest none none) bytes).map fun m =>
      instances (m.optional 1) (m.optional 2)
  | "SetNumInstances" =>
    (Message.decode? (.setNumInstancesRequest none none 0) bytes).map fun m =>
      setInstances (m.optional 1) (m.optional 2) (m.int 3)
  | "StartModule" =>
    (Message.decode? (.startModuleRequest "" "") bytes).map fun m => start (m.text 1) (m.text 2)
  | "StopModule" =>
    (Message.decode? (.stopModuleRequest none none) bytes).map fun m =>
      stop (m.optional 1) (m.optional 2)
  | "GetHostname" =>
    (Message.decode? (.getHostnameRequest none none none) bytes).map fun m =>
      hostname (m.optional 1) (m.optional 2) (m.optional 3)
  | _ => none

/-- The text that an instance is addressed by, if there is one. -/
inductive Addressed : Option UInt32 → Option String → Prop
  | whole : Addressed none none
  | single {index : UInt32} {text : String} : Decimal.Written text.toList index.toNat →
      Addressed (some index) (some text)

/-- What a call asks. A hostname's version is asked for just if it is explicit,
be it empty; the one that a caller runs in stays unsaid. -/
inductive Asks : Backend.Call → Demand → Prop
  | modules : Asks .listModules .modules
  | versions {module} : Asks (.listVersions module) (.versions (some module))
  | defaultVersion {module} : Asks (.defaultVersion module) (.defaultVersion (some module))
  | instances {module version} :
      Asks (.instanceCount module version) (.instances (some module) (some version))
  | setInstances {module version} {count : UInt32} {instances : Int} : instances = count.toNat →
      Asks (.setInstanceCount module version count)
        (.setInstances (some module) (some version) instances)
  | start {module version} :
      Asks (.setServingStatus module version .serving) (.start module version)
  | stop {module version} :
      Asks (.setServingStatus module version .stopped) (.stop (some module) (some version))
  | explicit {module version index text} : Addressed index text →
      Asks (.hostname ⟨module, .explicit version, index⟩)
        (.hostname (some module) (some version) text)
  | current {module version index text} : Addressed index text →
      Asks (.hostname ⟨module, .current version, index⟩) (.hostname (some module) none text)

end Legacy

namespace Backend.Call

/-- What of a call is sent: all but the version that a caller runs in. -/
def sent : Backend.Call → Backend.Call
  | hostname ⟨module, .current _, index⟩ => hostname ⟨module, .current none, index⟩
  | call => call

/-- The texts that are sent. -/
def texts : Backend.Call → List String
  | listModules => []
  | listVersions module | defaultVersion module => [module]
  | instanceCount module version | setInstanceCount module version _
  | setServingStatus module version _ => [module, version]
  | hostname q => q.module :: q.version.explicit?.toList

/-- No text is longer than memory is, which 64 bits address. -/
def Storable (call : Backend.Call) : Prop :=
  ∀ s ∈ call.texts, (Utf8.encode s).length < UInt64.size

end Backend.Call

namespace Legacy

theorem Addressed.inj {index index' : Option UInt32} {text : Option String}
    (h : Addressed index text) (h' : Addressed index' text) : index = index' := by
  cases h with
  | whole => cases h'; rfl
  | single hwritten =>
    cases h' with
    | single hwritten' => rw [UInt32.toNat_inj.1 (hwritten.inj hwritten')]

theorem addressed_segment (index : Option UInt32) :
    Addressed index (index.map HostnameQuery.segment) := by
  cases index with
  | none => exact .whole
  | some index => exact .single (Decimal.text_written index.toNat)

/-- A demand tells what is sent of the call that makes it. -/
theorem Asks.sent_eq {call call' : Backend.Call} {demand : Demand} (h : Asks call demand)
    (h' : Asks call' demand) : call.sent = call'.sent := by
  cases h with
  | setInstances hcount =>
    cases h' with
    | setInstances hcount' => rw [UInt32.toNat_inj.1 (Int.ofNat_inj.1 (hcount.symm.trans hcount'))]
  | explicit hindex =>
    cases h' with
    | explicit hindex' => rw [hindex.inj hindex']
  | current hindex =>
    cases h' with
    | current hindex' => simp only [Backend.Call.sent, hindex.inj hindex']
  | _ => cases h'; rfl

/-! ## Requests -/

/-- A character takes four bytes at most. -/
theorem encode_length_le (s : String) : (Utf8.encode s).length ≤ 4 * s.length := by
  rw [Utf8.encode, List.length_flatMap, ← String.length_toList]
  induction s.toList with
  | nil => rfl
  | cons c cs ih =>
    have hchar : (String.utf8EncodeChar c).length ≤ 4 := by
      rw [String.length_utf8EncodeChar]
      exact c.utf8Size_le_four
    rw [List.map_cons, List.sum_cons, List.length_cons]
    omega

theorem segment_storable (index : UInt32) :
    (Utf8.encode (HostnameQuery.segment index)).length < UInt64.size := by
  have hdigits : (HostnameQuery.segment index).length ≤ 10 := by
    rw [HostnameQuery.segment, Decimal.text, Nat.length_repr_le_iff (by decide)]
    exact Nat.lt_trans index.toNat_lt (by decide)
  have hbytes := encode_length_le (HostnameQuery.segment index)
  have hsize : 40 < UInt64.size := by decide
  omega

/-- The slots of a request are numbered from one, and there are at most three. -/
theorem message_numbers (call : Backend.Call) :
    ∃ count ≤ 3, call.message.numbers = List.range' 1 count := by
  cases call with
  | listModules => exact ⟨0, by decide, rfl⟩
  | listVersions | defaultVersion => exact ⟨1, by decide, rfl⟩
  | instanceCount => exact ⟨2, by decide, rfl⟩
  | setServingStatus module version status => cases status <;> exact ⟨2, by decide, rfl⟩
  | setInstanceCount | hostname => exact ⟨3, by decide, rfl⟩

theorem Datum.inRange_count (count : UInt32) : (int count.toNat).InRange := by
  have hcount : count.toNat < 0x100000000 := count.toNat_lt
  simp only [InRange]
  omega

theorem message_inRange (call : Backend.Call) : ∀ slot ∈ call.message, slot.datum.InRange := by
  cases call with
  | setInstanceCount module version count =>
    rw [Backend.Call.message, Message.setNumInstancesRequest, List.forall_mem_cons,
      List.forall_mem_cons, List.forall_mem_singleton]
    exact ⟨trivial, trivial, Datum.inRange_count count⟩
  | setServingStatus module version status =>
    cases status <;> simp [Backend.Call.message, Message.startModuleRequest,
      Message.stopModuleRequest, moduleSlot, versionSlot, Datum.InRange]
  | _ =>
    simp [Backend.Call.message, Message.getModulesRequest, Message.getVersionsRequest,
      Message.getDefaultVersionRequest, Message.getNumInstancesRequest, Message.getHostnameRequest,
      moduleSlot, versionSlot, Datum.InRange]

/-- The texts of a request are those of the call and what it addresses an instance by. -/
theorem message_texts (call : Backend.Call) : ∀ slot ∈ call.message, ∀ s ∈ slot.datum.texts,
    s ∈ call.texts ∨ ∃ index, s = HostnameQuery.segment index := by
  cases call with
  | hostname q =>
    intro slot hslot s hs
    simp only [Backend.Call.message, Message.getHostnameRequest, List.mem_cons, List.not_mem_nil,
      or_false] at hslot
    obtain rfl | rfl | rfl := hslot
    · obtain rfl : s = q.module := List.mem_singleton.1 hs
      exact .inl List.mem_cons_self
    · exact .inl (List.mem_cons_of_mem _ hs)
    · obtain ⟨index, -, rfl⟩ := Option.map_eq_some_iff.1 (Option.mem_toList.1 hs)
      exact .inr ⟨index, rfl⟩
  | setServingStatus module version status =>
    cases status <;> simp [Backend.Call.message, Message.startModuleRequest,
      Message.stopModuleRequest, moduleSlot, versionSlot, Datum.texts, Backend.Call.texts]
  | _ =>
    simp [Backend.Call.message, Message.getModulesRequest, Message.getVersionsRequest,
      Message.getDefaultVersionRequest, Message.getNumInstancesRequest,
      Message.setNumInstancesRequest, moduleSlot, versionSlot, Datum.texts, Backend.Call.texts]

/-- What a call sends can be sent. -/
theorem message_sendable {call : Backend.Call} (h : call.Storable) : call.message.Sendable := by
  obtain ⟨count, hcount, hnumbers⟩ := message_numbers call
  constructor
  case numbered =>
    intro slot hslot
    have hmem : slot.number ∈ call.message.numbers := List.mem_map_of_mem hslot
    rw [hnumbers, List.mem_range'_1] at hmem
    simp only [Wire.IsNumber]
    omega
  case nodup =>
    rw [hnumbers]
    exact List.nodup_range'
  case inRange => exact message_inRange call
  case texts =>
    intro slot hslot s hs
    obtain hs | ⟨index, rfl⟩ := message_texts call slot hslot s hs
    · exact h s hs
    · exact segment_storable index

/-- A request that is read back makes its call's demand. -/
theorem read?_encode {call : Backend.Call} (h : call.Storable) :
    ∃ demand, Demand.read? call.method.name call.message.encode = some demand ∧
      Asks call demand := by
  have hread := Message.decode?_encode (message_sendable h)
  cases call with
  | listModules => exact ⟨_, congrArg (Option.map fun _ => Demand.modules) hread, .modules⟩
  | listVersions module => exact ⟨_, congrArg (Option.map _) hread, .versions⟩
  | defaultVersion module => exact ⟨_, congrArg (Option.map _) hread, .defaultVersion⟩
  | instanceCount module version => exact ⟨_, congrArg (Option.map _) hread, .instances⟩
  | setInstanceCount module version count =>
    exact ⟨_, congrArg (Option.map _) hread, .setInstances rfl⟩
  | setServingStatus module version status =>
    cases status with
    | serving => exact ⟨_, congrArg (Option.map _) hread, .start⟩
    | stopped => exact ⟨_, congrArg (Option.map _) hread, .stop⟩
  | hostname q =>
    obtain ⟨module, version | version, index⟩ := q
    · exact ⟨_, congrArg (Option.map _) hread, .explicit (addressed_segment index)⟩
    · exact ⟨_, congrArg (Option.map _) hread, .current (addressed_segment index)⟩

/-- Whatever the service answers, the call sends these bytes to this method, and
nothing else. -/
def Sends (call : Backend.Call) (method : String) (bytes : Bytes) : Prop :=
  ∃ caller, ∀ server : Dialogue.Server Request Reply, ∃ outcome,
    Dialogue.Ends server (backend.perform call).run [.call method bytes caller] outcome

theorem sends_iff {call : Backend.Call} {method : String} {bytes : Bytes} :
    Sends call method bytes ↔ method = call.method.name ∧ bytes = call.message.encode := by
  constructor
  · rintro ⟨caller, h⟩
    obtain ⟨outcome, hends⟩ := h fun _ _ => .ok []
    obtain ⟨hmade, -⟩ := hends.unique (perform_ends _ call)
    cases hmade
    exact ⟨rfl, rfl⟩
  · rintro ⟨rfl, rfl⟩
    exact ⟨call.method.caller, fun server => ⟨_, perform_ends server call⟩⟩

/-- **A request is read back** as what its call asks: its texts, its count as it
is, its version just if that is explicit, its instance in decimal. So a call of
which something else is sent is not sent alike. -/
theorem requests_read_back (call : Backend.Call) (h : call.Storable) :
    ∃ method bytes demand, Sends call method bytes ∧
      Demand.read? method bytes = some demand ∧ Asks call demand ∧
      ∀ call' : Backend.Call, call'.Storable → Sends call' method bytes →
        call'.sent = call.sent := by
  obtain ⟨demand, hread, hasks⟩ := read?_encode h
  refine ⟨_, _, demand, sends_iff.2 ⟨rfl, rfl⟩, hread, hasks, fun call' h' hsends => ?_⟩
  obtain ⟨hmethod, hbytes⟩ := sends_iff.1 hsends
  obtain ⟨demand', hread', hasks'⟩ := read?_encode h'
  rw [← hmethod, ← hbytes, hread] at hread'
  cases hread'
  exact hasks'.sent_eq hasks

/-- A version that is explicit and empty is sent, and differs from none. -/
theorem requests_read_back_empty_version : ∃ method bytes,
    Sends (.hostname ⟨"web", .explicit "", some 7⟩) method bytes ∧
      Demand.read? method bytes = some (.hostname (some "web") (some "") (some "7")) ∧
      ¬ Sends (.hostname ⟨"web", .current none, some 7⟩) method bytes := by
  obtain ⟨method, bytes, demand, hsends, hread, hasks, hother⟩ :=
    requests_read_back (.hostname ⟨"web", .explicit "", some 7⟩)
      (by unfold Backend.Call.Storable; decide)
  refine ⟨method, bytes, hsends, ?_, fun hsends' => ?_⟩
  · cases hasks with
    | explicit hindex =>
      cases hindex with
      | @single _ text hwritten =>
        obtain rfl : text = "7" := String.toList_inj.1 hwritten.digits_eq
        exact hread
  · have hsent := hother _ (by unfold Backend.Call.Storable; decide) hsends'
    cases hsent

end Legacy
end ControlPlane
