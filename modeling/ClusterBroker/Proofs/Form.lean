import ClusterBroker.Proofs.Ident
import ClusterBroker.Proofs.Options.Form

/-!
# The model is read as it was written

Every request, reservation, change and event is read from its exchanged form, and so are the
options. It does not matter if someone else adds fields to the objects, or leaves out an allocation
or a time of allocation that is not there. Only in a change nothing may stand beside its kind.
-/
namespace ClusterBroker

open Value

/-! ### Parts -/

theorem Id.reads {k : IdKind} : Reader.Reads (Id.reader (k := k)) Id.toValue :=
  Reader.ofText_reads fun a => by
    rw [Id.parse_toText]
    rfl

theorem QueueName.reads : Reader.Reads QueueName.reader fun q => .string q.text :=
  Reader.text_reads.map fun _ => rfl

theorem Location.reads : Reader.Reads Location.reader fun l => .string l.text :=
  Reader.text_reads.map fun _ => rfl

theorem ManagerId.reads : Reader.Reads ManagerId.reader fun m => .string m.text :=
  Reader.text_reads.map fun _ => rfl

theorem Time.ofMillis_millis (t : Time) : Time.ofMillis t.millis = t :=
  Time.ext_millis (Nat.min_eq_left (Nat.le_sub_one_of_lt t.millis_lt))

theorem Time.reads : Reader.Reads Time.reader Time.toValue :=
  .of_int fun t => by
    rw [Time.reader, Reader.natBelow_ok t.millis_lt]
    exact congrArg Except.ok t.ofMillis_millis

theorem readCpu_reads : Reader.Reads readCpu fun n => .int n.toNat :=
  .of_int fun n => by
    rw [readCpu, Reader.natBelow_ok n.toNat_lt]
    exact congrArg Except.ok UInt32.ofNat_toNat

theorem readMemory_reads : Reader.Reads readMemory fun n => .int n.toNat :=
  .of_int fun n => by
    have hn : n.toNat < wordRange := n.toNat_lt
    rw [readMemory, Reader.natBelow_ok hn]
    exact congrArg Except.ok UInt64.ofNat_toNat

theorem Locality.reads : Reader.Reads (.variant true Locality.ofText?) fun l => .string l.text :=
  Reader.variant_reads Locality.ofText?_text

theorem Resource.Status.reads :
    Reader.Reads (.variant true Resource.Status.ofText?) fun s => .string s.text :=
  Reader.variant_reads Resource.Status.ofText?_text

theorem Reservation.Status.reads :
    Reader.Reads (.variant true Reservation.Status.ofText?) fun s => .string s.text :=
  Reader.variant_reads Reservation.Status.ofText?_text

/-! ### Records -/

theorem Ask.record_reads : Ask.record.Reads Ask.toValue := by
  intro a
  refine ⟨_, rfl, by simp, fun get h => ?_⟩
  simp only [List.forall_mem_cons] at h
  obtain ⟨hid, hlocation, hlocality, hcpu, hmemory, -⟩ := h
  exact Record.Builds.of Ask.mk
    |>.field Id.reads hid
    |>.field Location.reads hlocation
    |>.field Locality.reads hlocality
    |>.field readCpu_reads hcpu
    |>.field readMemory_reads hmemory

theorem Request.record_reads : Request.record.Reads Request.toValue := by
  intro r
  refine ⟨_, rfl, by simp, fun get h => ?_⟩
  simp only [List.forall_mem_cons] at h
  obtain ⟨hhandle, hqueue, hgang, hasks, -⟩ := h
  exact Record.Builds.of Request.mk
    |>.field Id.reads hhandle
    |>.field QueueName.reads hqueue
    |>.field Reader.bool_reads hgang
    |>.field (Ask.record_reads.reader true).list hasks

theorem Allocation.record_reads : Allocation.record.Reads Allocation.toValue := by
  intro a
  refine ⟨_, rfl, by simp, fun get h => ?_⟩
  simp only [List.forall_mem_cons] at h
  obtain ⟨hcpu, hmemory, hlocation, hid, -⟩ := h
  exact Record.Builds.of Allocation.mk
    |>.field readCpu_reads hcpu
    |>.field readMemory_reads hmemory
    |>.field Location.reads hlocation
    |>.field ManagerId.reads hid

theorem Resource.record_reads : Resource.record.Reads Resource.toValue := by
  intro r
  refine ⟨_, rfl, by simp, fun get h => ?_⟩
  simp only [List.forall_mem_cons] at h
  obtain ⟨hask, hreservation, hhandle, hqueue, hstatus, hallocation, -⟩ := h
  exact Record.Builds.of Resource.mk
    |>.field (Ask.record_reads.reader true) hask
    |>.field Id.reads hreservation
    |>.field Id.reads hhandle
    |>.field QueueName.reads hqueue
    |>.field Status.reads hstatus
    |>.optionalField (Allocation.record_reads.reader true) hallocation

theorem Reservation.record_reads : Reservation.record.Reads Reservation.toValue := by
  intro r
  refine ⟨_, rfl, by simp, fun get h => ?_⟩
  simp only [List.forall_mem_cons] at h
  obtain ⟨hid, hhandle, hqueue, hgang, hstatus, hplaced, hallocated, hresources, -⟩ := h
  exact Record.Builds.of Reservation.mk
    |>.field Id.reads hid
    |>.field Id.reads hhandle
    |>.field QueueName.reads hqueue
    |>.field Reader.bool_reads hgang
    |>.field Status.reads hstatus
    |>.field Time.reads hplaced
    |>.optionalField Time.reads hallocated
    |>.field (Resource.record_reads.reader true).list hresources

theorem Event.record_reads : Event.record.Reads Event.toValue := by
  intro e
  refine ⟨_, rfl, by simp, fun get h => ?_⟩
  simp only [List.forall_mem_cons] at h
  obtain ⟨hhandle, hallocated, hreservations, hrefused, hrejected, hpreempted, hlost, -⟩ := h
  exact Record.Builds.of Event.mk
    |>.field Id.reads hhandle
    |>.field (Resource.record_reads.reader true).list hallocated
    |>.field Id.reads.list hreservations
    |>.field Id.reads.list hrefused
    |>.field Id.reads.list hrejected
    |>.field Id.reads.list hpreempted
    |>.field Id.reads.list hlost

theorem Node.record_reads : Node.record.Reads Node.toValue := by
  intro n
  refine ⟨_, rfl, by simp, fun get h => ?_⟩
  simp only [List.forall_mem_cons] at h
  obtain ⟨hlocation, hcpu, hmemory, -⟩ := h
  exact Record.Builds.of Node.mk
    |>.field Location.reads hlocation
    |>.field readCpu_reads hcpu
    |>.field readMemory_reads hmemory

/-! ### Changes -/

namespace Change

/-- The fields of what a change's kind stands before. -/
def fields (c : Change) : List (String × Value) :=
  ("resource_id", c.resource.toValue) :: match c with
  | .allocated _ a => [("allocation", a.toValue)]
  | _ => []

theorem toValue_eq (c : Change) : c.toValue = .object [(c.kind, .object c.fields)] := rfl

/-- The record that a change's kind names builds the change. -/
theorem recordOf?_kind (c : Change) : ∃ r, recordOf? c.kind = some r ∧
    ∀ get, (∀ f ∈ c.fields, Finds get f.1 f.2) → Record.Builds get r c := by
  cases c with
  | allocated id a =>
    refine ⟨allocatedRecord, rfl, fun get h => ?_⟩
    simp only [fields, List.forall_mem_cons] at h
    exact Record.Builds.of Change.allocated
      |>.field Id.reads h.1
      |>.field (Allocation.record_reads.reader true) h.2.1
  | rejected id | preempted id | lost id =>
    refine ⟨otherRecord _, rfl, fun get h => ?_⟩
    simp only [fields, List.forall_mem_cons] at h
    exact Record.Builds.of _ |>.field Id.reads h.1

/-- Fields may be added to what a kind stands before. -/
theorem reader_padded {c : Change} {w : Value} (h : Padded (.object c.fields) w) :
    reader (.object [(c.kind, w)]) = .ok c := by
  obtain ⟨added, gs, rfl, hgs, hadded⟩ := h.of_object
  obtain ⟨r, hr, hbuild⟩ := recordOf?_kind c
  have hfinds := hgs.finds (by cases c <;> simp [fields]) hadded
  unfold reader
  dsimp only
  rw [hr]
  dsimp only
  rw [Record.ofFields_of_builds (hbuild _ hfinds)]
  rfl

end Change

/-- Every value of the model is read from its written form, and from every form in which someone
else added fields to its objects or left out an allocation or a time of allocation that is not
there, at any depth. The object of a change is an exception: only what stands behind the kind may
have more fields. Spans are read whatever their length. -/
theorem written_forms_read :
    Reader.Reads Ask.record.exact Ask.toValue ∧
    Reader.Reads Request.record.exact Request.toValue ∧
    Reader.Reads Allocation.record.exact Allocation.toValue ∧
    Reader.Reads Resource.record.exact Resource.toValue ∧
    Reader.Reads Reservation.record.exact Reservation.toValue ∧
    Reader.Reads Event.record.exact Event.toValue ∧
    Reader.Reads Node.record.exact Node.toValue ∧
    (∀ c : Change, Change.reader c.toValue = .ok c ∧
      c.toValue = .object [(c.kind, .object c.fields)] ∧
      ∀ w, Padded (.object c.fields) w → Change.reader (.object [(c.kind, w)]) = .ok c) ∧
    (∀ k, Reader.Reads (Id.reader (k := k)) Id.toValue) ∧
    Reader.Reads QueueName.reader (fun q => .string q.text) ∧
    Reader.Reads Location.reader (fun l => .string l.text) ∧
    Reader.Reads ManagerId.reader (fun m => .string m.text) ∧
    Reader.Reads Time.reader Time.toValue ∧
    Reader.Reads (.variant true Locality.ofText?) (fun l => .string l.text) ∧
    Reader.Reads (.variant true Resource.Status.ofText?) (fun s => .string s.text) ∧
    Reader.Reads (.variant true Reservation.Status.ofText?) (fun s => .string s.text) ∧
    Reader.Reads (.variant true EvictionKind.ofText?) (fun k => .string k.text) ∧
    Reader.Reads (.variant true LogFormat.ofText?) (fun f => .string f.text) ∧
    Reader.Reads Span.reader Span.toValue ∧
    Reader.Reads DeadlockOptions.record.exact DeadlockOptions.toValue ∧
    Reader.Reads (CacheOptions.record true).exact CacheOptions.toValue ∧
    Reader.Reads (LoggingOptions.record true).exact LoggingOptions.toValue ∧
    Reader.Reads (BrokerOptions.reader true) BrokerOptions.toValue := by
  have hchange (c : Change) : Change.reader c.toValue = .ok c ∧
      c.toValue = .object [(c.kind, .object c.fields)] ∧
      ∀ w, Padded (.object c.fields) w → Change.reader (.object [(c.kind, w)]) = .ok c :=
    ⟨Change.reader_padded (.same _), c.toValue_eq, fun _ => Change.reader_padded⟩
  exact ⟨Ask.record_reads.reader true, Request.record_reads.reader true,
    Allocation.record_reads.reader true, Resource.record_reads.reader true,
    Reservation.record_reads.reader true, Event.record_reads.reader true,
    Node.record_reads.reader true, hchange, fun _ => Id.reads, QueueName.reads, Location.reads,
    ManagerId.reads, Time.reads, Locality.reads, Resource.Status.reads, Reservation.Status.reads,
    Reader.variant_reads EvictionKind.ofText_text, Reader.variant_reads LogFormat.ofText_text,
    Span.reads, DeadlockOptions.record_reads.reader true,
    (CacheOptions.record_reads true).reader true, (LoggingOptions.record_reads true).reader true,
    BrokerOptions.reads true⟩

/-- A resource is read although its ask has a field more and the allocation is left out, and a
rejection with a reason is read as one. -/
theorem written_forms_read_padded :
    let id : ResourceId := Id.ofNat 1
    let ask : Ask := ⟨id, ⟨"rack"⟩, .must, 2, 1024⟩
    let r : Resource := ⟨ask, Id.ofNat 2, Id.ofNat 3, ⟨"root"⟩, .pending, none⟩
    let reason : Value := .string "full"
    Resource.record.exact (.object [
      ("ask", .object [
        ("resource_id", id.toValue), ("location", .string "rack"), ("locality", .string "must"),
        ("host", reason), ("cpu_vcores", .int 2), ("memory_mb", .int 1024)]),
      ("reservation_id", r.reservation.toValue),
      ("handle", r.handle.toValue),
      ("queue", .string "root"),
      ("status", .string "PENDING")]) = .ok r ∧
    Change.reader (.object [
      ("Rejected", .object [("reason", reason), ("resource_id", id.toValue)])]) =
        .ok (.rejected id) := by
  intro id ask r reason
  obtain ⟨-, -, -, hresource, -, -, -, hchange, -⟩ := written_forms_read
  refine ⟨hresource.padded r _ ?_, (hchange (.rejected id)).2.2 _ ?_⟩
  · have hask : Padded ask.toValue (.object [
        ("resource_id", id.toValue), ("location", .string "rack"), ("locality", .string "must"),
        ("host", reason), ("cpu_vcores", .int 2), ("memory_mb", .int 1024)]) :=
      .object (.keep (.same _) <| .keep (.same _) <| .keep (.same _) <| .add (.refl _)) (by decide)
    exact .object (.keep hask <| .keep (.same _) <| .keep (.same _) <| .keep (.same _) <|
      .keep (.same _) <| .drop (by decide) .nil) (List.forall_mem_nil _)
  · exact .object (.add (.refl _)) (by decide)

end ClusterBroker
