import ClusterBroker.Options.Form
import ClusterBroker.Proofs.Span.Text
import ClusterBroker.Proofs.Value.Reading

/-!
# Options are read as they were written

This holds in both formats, also if others add fields to the objects; the logging options are
found among the fields of the broker's options.
-/
namespace ClusterBroker

open Value

theorem EvictionKind.ofText_text (k : EvictionKind) : EvictionKind.ofText? k.text = some k := by
  cases k <;> rfl

theorem LogFormat.ofText_text (f : LogFormat) : LogFormat.ofText? f.text = some f := by
  cases f <;> rfl

theorem Span.reads : Reader.Reads Span.reader Span.toValue :=
  .of_string fun d => by simp only [Span.reader, Reader.text, Span.parse_toText]

theorem readByte_reads : Reader.Reads readByte fun n => .int n.toNat :=
  .of_int fun n => by
    rw [readByte, Reader.natBelow_ok n.toNat_lt]
    exact congrArg Except.ok (UInt8.ofNat_toNat)

theorem DeadlockOptions.record_reads : DeadlockOptions.record.Reads DeadlockOptions.toValue := by
  intro o
  refine ⟨_, rfl, by simp, fun get h => ?_⟩
  simp only [List.forall_mem_cons] at h
  obtain ⟨henabled, hlimit, hpercent, hmin, hmax, -⟩ := h
  exact Record.Builds.of DeadlockOptions.mk
    |>.field Reader.bool_reads henabled
    |>.field Span.reads hlimit
    |>.field readByte_reads hpercent
    |>.field Span.reads hmin
    |>.field Span.reads hmax

theorem CacheOptions.record_reads (closed : Bool) :
    (CacheOptions.record closed).Reads CacheOptions.toValue := by
  intro o
  refine ⟨_, rfl, by simp, fun get h => ?_⟩
  simp only [List.forall_mem_cons] at h
  obtain ⟨henabled, hpolicy, hinterval, htimeout, -⟩ := h
  exact Record.Builds.of CacheOptions.mk
    |>.field Reader.bool_reads henabled
    |>.field (Reader.variant_reads EvictionKind.ofText_text) hpolicy
    |>.field Span.reads hinterval
    |>.field Span.reads htimeout

theorem LoggingOptions.record_reads (closed : Bool) :
    (LoggingOptions.record closed).Reads LoggingOptions.toValue := by
  intro o
  refine ⟨o.fields, rfl, by simp [fields], fun get h => ?_⟩
  simp only [fields, List.forall_mem_cons] at h
  obtain ⟨hfilter, hformat, hcodes, -⟩ := h
  exact Record.Builds.of LoggingOptions.mk
    |>.field Reader.text_reads hfilter
    |>.field (Reader.variant_reads LogFormat.ofText_text) hformat
    |>.field Reader.bool_reads hcodes

theorem LoggingOptions.collectedRecord_builds {get : String → Option Value} {o : LoggingOptions}
    (h : ∀ f ∈ o.fields, Finds get f.1 f.2) : Record.Builds get collectedRecord o := by
  simp only [fields, List.forall_mem_cons] at h
  obtain ⟨hfilter, hformat, hcodes, -⟩ := h
  exact Record.Builds.of LoggingOptions.mk
    |>.field Reader.collectedText_reads hfilter
    |>.field (Reader.collectedVariant_reads LogFormat.ofText_text) hformat
    |>.field Reader.bool_reads hcodes

/-- Both parts are read from the same fields, each from those that it knows. -/
theorem BrokerOptions.reads (closed : Bool) :
    Reader.Reads (BrokerOptions.reader closed) BrokerOptions.toValue := by
  refine .of_padded (fun o w hw => ?_) fun _ => nofun
  obtain ⟨added, gs, rfl, hgs, hadded⟩ := hw.of_object
  have hfinds := hgs.finds (by simp [LoggingOptions.fields]) hadded
  rw [List.forall_mem_append, List.forall_mem_append] at hfinds
  obtain ⟨⟨hqueue, hlogging⟩, hsections⟩ := hfinds
  simp only [List.forall_mem_cons] at hqueue hsections
  have hrest := Record.Builds.of
      (fun queue antiDeadlock cache logging => BrokerOptions.mk ⟨queue⟩ logging antiDeadlock cache)
    |>.field Reader.text_reads hqueue.1
    |>.field (DeadlockOptions.record_reads.reader closed) hsections.1
    |>.field ((CacheOptions.record_reads closed).reader closed) hsections.2.1
  have hlog := Record.ofFields_of_builds (LoggingOptions.collectedRecord_builds hlogging)
  change ((record closed).ofFields gs).bind _ = _
  rw [show (record closed).ofFields gs = .ok _ from Record.ofFields_of_builds hrest]
  change ((LoggingOptions.collectedRecord.ofFields gs).mapError _).bind _ = _
  rw [hlog]
  rfl

end ClusterBroker
