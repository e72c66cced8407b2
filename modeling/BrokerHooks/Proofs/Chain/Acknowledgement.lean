import BrokerHooks.Proofs.Chain.Policy
import BrokerHooks.Proofs.Draft.ReasonCodes

namespace BrokerHooks

/-- The turn was pending until its deadline passed, and fails by that. -/
def Visit.timesOut : Visit → Bool
  | .ended (.timedOut .failure) _ => true
  | _ => false

/-- The acknowledgement answers the packet, whose chain has failed, by a deadline or in some other way. -/
def FailureAck.Answers (timedOut : Prop) : FailureAck → Packet → Prop
  | .connack a, .connect p =>
    a.reasonCode = .unspecifiedError ∧ a.sessionPresent = false ∧ a.userProperties = [] ∧
      (a.reasonString = some Delivery.connectTimeout ↔ timedOut) ∧
      (¬timedOut → ∀ id, a.reasonString = some (Delivery.connectFailed id) ↔ id = p.clientId)
  | .suback a, .subscribe p =>
    a.packetId = p.packetId ∧ a.reasonCodes = List.replicate p.subscriptions.length .unspecifiedError ∧
      a.reasonString = some Delivery.subscribePrevented ∧ a.userProperties = []
  | .unsuback a, .unsubscribe p =>
    a.packetId = p.packetId ∧ a.reasonCodes = List.replicate p.topicFilters.length .unspecifiedError ∧
      a.reasonString = some Delivery.unsubscribePrevented ∧ a.userProperties = []
  | _, _ => False

/-- The packet keeps the rules to which drafts of its kind are held. -/
structure Packet.KeepsRules (limits : PacketLimits) (p : Packet) : Prop where
  codes : ∀ code ∈ p.reasonCodes, p.admits code
  reason : p.ReasonInPlace
  text : ∀ text, p.reasonString? = some (some text) → limits.checkString "reason string" text = .ok ()

/-- What a client may send: a CONNECT with an acceptable client identifier, and no request without entries. -/
def Packet.IsProper (limits : PacketLimits) : Packet → Prop
  | .connect p => limits.checkString "client id" p.clientId = .ok ()
  | .subscribe p => p.subscriptions ≠ []
  | .unsubscribe p => p.topicFilters ≠ []
  | _ => True

namespace PacketLimits

theorem admitsChars_append (limits : PacketLimits) (s t : String) :
    limits.admitsChars (s ++ t) = (limits.admitsChars s && limits.admitsChars t) := by
  simp [admitsChars]

end PacketLimits

namespace Delivery

theorem connectFailed_eq (id : String) : connectFailed id = "Connect with client ID " ++ id ++
    " failed because of an exception was thrown by an CONNECT inbound interceptor." := rfl

/-- The text tells client identifiers apart. -/
theorem connectFailed_inj {id id' : String} : connectFailed id = connectFailed id' ↔ id = id' := by
  rw [connectFailed_eq, connectFailed_eq, String.append_left_inj, String.append_right_inj]

theorem utf8ByteSize_connectFailed (id : String) :
    (connectFailed id).utf8ByteSize = id.utf8ByteSize + 100 := by
  have hbefore : "Connect with client ID ".utf8ByteSize = 23 := rfl
  have hafter : " failed because of an exception was thrown by an CONNECT inbound interceptor.".utf8ByteSize = 77 :=
    rfl
  rw [connectFailed_eq, String.utf8ByteSize_append, String.utf8ByteSize_append, hbefore, hafter]
  omega

theorem connectFailed_ne_timeout (id : String) : connectFailed id ≠ connectTimeout := by
  intro h
  have hsize : (connectFailed id).utf8ByteSize = 29 := by rw [h]; rfl
  rw [utf8ByteSize_connectFailed] at hsize
  omega

/-- What surrounds the client identifier is 100 bytes long, and nothing in it is refused. -/
theorem checkString_connectFailed {field : String} {id : String}
    (hid : ({} : PacketLimits).checkString field id = .ok ()) (field' : String) :
    ({} : PacketLimits).checkString field' (connectFailed id) = .ok () ↔ id.utf8ByteSize ≤ 65435 := by
  have hbefore : ({} : PacketLimits).admitsChars "Connect with client ID " := by decide
  have hafter : ({} : PacketLimits).admitsChars
      " failed because of an exception was thrown by an CONNECT inbound interceptor." := by decide
  have hchars := (PacketLimits.checkString_eq_ok.1 hid).2
  rw [PacketLimits.checkString_eq_ok, utf8ByteSize_connectFailed, connectFailed_eq,
    PacketLimits.admitsChars_append, PacketLimits.admitsChars_append, hbefore, hchars, hafter]
  simp only [Bool.and_self, and_true]
  omega

theorem checkString_fixed {text : String}
    (h : text ∈ [connectTimeout, subscribePrevented, unsubscribePrevented]) (field : String) :
    ({} : PacketLimits).checkString field text = .ok () := by
  have hsize : ∀ text ∈ [connectTimeout, subscribePrevented, unsubscribePrevented], text.utf8ByteSize ≤ 65535 := by
    decide
  have hchars : ∀ text ∈ [connectTimeout, subscribePrevented, unsubscribePrevented],
      ({} : PacketLimits).admitsChars text := by decide
  exact PacketLimits.checkString_eq_ok.2 ⟨hsize text h, hchars text h⟩

/-- The reason names the client identifier of the CONNECT unless the chain ran out of time. -/
theorem connectReason_answers {f : Failure} {p : ConnectPacket} (hf : f.supplied = .connect p)
    (clientId : String) :
    (FailureAck.connack (.refused .unspecifiedError (connectReason clientId (some f)))).Answers
      (f.cause = .timeout) (.connect p) := by
  refine ⟨rfl, rfl, rfl, ?_, fun hcause id => ?_⟩
  · by_cases hcause : f.cause = .timeout
    · simp [ConnackPacket.refused, connectReason, hcause]
    · simp [ConnackPacket.refused, connectReason, hcause, hf, connectFailed_ne_timeout]
  · simp [ConnackPacket.refused, connectReason, hcause, hf, connectFailed_inj, eq_comm]

/-- A failure acknowledgement answers the packet with which the chain of the failed fold began. -/
theorem answers_of_fold {p : Packet} {fold : Except Failure Packet}
    (hsupplied : ∀ f, fold = .error f → f.supplied = p) {inbound closed : Bool} {clientId : String}
    {ack : FailureAck} (h : ofReport clientId (p.point inbound)
      ((Report.ofFold (p.point inbound) fold).onConnection closed) = .failureAck ack) :
    ∃ f, fold = .error f ∧ ack.Answers (f.cause = .timeout) p := by
  have hdelivers : Delivers inbound p _ closed clientId _ _ := .of_fold hsupplied closed clientId
  obtain ⟨hrefused, ⟨f, hfold⟩, hopen⟩ := hdelivers.refuse.1 ⟨ack, h⟩
  have hf := hsupplied f hfold
  refine ⟨f, hfold, ?_⟩
  -- Nothing is sent on a closed connection, so the acknowledgement says that it was open.
  obtain rfl : closed = false := by simpa using hopen
  rw [hfold] at h
  simp only [Report.onConnection, Report.ofFold, Failure.report, Cause.reaction_eq,
    Packet.failureReaction_point, hrefused, if_true, Reaction.outcome, Bool.false_eq_true, if_false] at h
  cases p with
  | connect p =>
    simp only [ofReport, Packet.point, Delivery.failureAck.injEq] at h
    exact h ▸ connectReason_answers hf clientId
  | subscribe p =>
    simp only [ofReport, Packet.point, refusal?, hf, Delivery.failureAck.injEq] at h
    subst h
    exact ⟨rfl, by simp [SubackPacket.refusing], rfl, rfl⟩
  | unsubscribe p =>
    simp only [ofReport, Packet.point, refusal?, hf, Delivery.failureAck.injEq] at h
    subst h
    exact ⟨rfl, by simp [UnsubackPacket.refusing], rfl, rfl⟩
  | _ => cases hrefused

end Delivery

def Report.TimedOut (r : Report) : Prop := ∃ f, r.failure = some f ∧ f.cause = .timeout

namespace FailureAck

theorem keepsRules_iff {limits : PacketLimits} {ack : FailureAck}
    (hcodes : ∀ code ∈ ack.packet.reasonCodes, ack.packet.admits code) (hreason : ack.packet.ReasonInPlace)
    {text : String} (htext : ack.packet.reasonString? = some (some text)) :
    ack.packet.KeepsRules limits ↔ limits.checkString "reason string" text = .ok () := by
  refine ⟨fun h => h.text text htext, fun h => ⟨hcodes, hreason, fun text' htext' => ?_⟩⟩
  obtain rfl : text = text' := by simpa [htext] using htext'
  exact h

theorem Answers.admits {timedOut : Prop} {ack : FailureAck} {p : Packet} (h : ack.Answers timedOut p) :
    ∀ code ∈ ack.packet.reasonCodes, ack.packet.admits code := by
  have hadmits : ack.packet.admits .unspecifiedError := by cases ack <;> rfl
  have hcodes : ∀ code ∈ ack.packet.reasonCodes, code = .unspecifiedError := by
    cases ack with
    | connack a => cases p with
      | connect p => simp [packet, Packet.reasonCodes, h.1]
      | _ => cases h
    | suback a => cases p with
      | subscribe p => simp [packet, Packet.reasonCodes, h.2.1]
      | _ => cases h
    | unsuback a => cases p with
      | unsubscribe p => simp [packet, Packet.reasonCodes, h.2.1]
      | _ => cases h
  intro code hcode
  rw [hcodes code hcode]
  exact hadmits

/-- A proper packet is answered with at least one code that reports a failure. -/
theorem Answers.reasonInPlace {timedOut : Prop} {ack : FailureAck} {p : Packet} (h : ack.Answers timedOut p)
    (hp : p.IsProper {}) : ack.packet.ReasonInPlace := by
  have herror : ReasonCode.unspecifiedError.isError = true := rfl
  intro _ _
  cases ack with
  | connack a => cases p with
    | connect p => simp [packet, Packet.allowsReasonString?, ConnackPacket.allowsReasonString, h.1, herror]
    | _ => cases h
  | suback a => cases p with
    | subscribe p =>
      obtain ⟨s, ss, hs⟩ := List.exists_cons_of_ne_nil hp
      simp [packet, Packet.allowsReasonString?, SubackPacket.allowsReasonString, h.2.1, hs, herror]
    | _ => cases h
  | unsuback a => cases p with
    | unsubscribe p =>
      obtain ⟨s, ss, hs⟩ := List.exists_cons_of_ne_nil hp
      simp [packet, Packet.allowsReasonString?, UnsubackPacket.allowsReasonString, h.2.1, hs, herror]
    | _ => cases h

/-- Only a client identifier of more than 65435 bytes makes a reason too long. -/
theorem Answers.keepsRules {timedOut : Prop} {ack : FailureAck} {p : Packet} (h : ack.Answers timedOut p)
    (hp : p.IsProper {}) : ack.packet.KeepsRules {} ↔
      ∀ q, p = .connect q → timedOut ∨ q.clientId.utf8ByteSize ≤ 65435 := by
  have hcodes := h.admits
  have hreason := h.reasonInPlace hp
  -- All texts but one are fixed; that one holds the client identifier.
  have hfixed {text : String} (htext : ack.packet.reasonString? = some (some text))
      (hmem : text ∈ [Delivery.connectTimeout, Delivery.subscribePrevented, Delivery.unsubscribePrevented]) :
      ack.packet.KeepsRules {} := (keepsRules_iff hcodes hreason htext).2 (Delivery.checkString_fixed hmem _)
  cases ack with
  | connack a => cases p with
    | connect p =>
      obtain ⟨-, -, -, htimeout, hnames⟩ := h
      by_cases hlate : timedOut
      · have htext := congrArg some (htimeout.2 hlate)
        exact iff_of_true (hfixed htext (by simp)) fun _ _ => .inl hlate
      · have htext := congrArg some ((hnames hlate p.clientId).2 rfl)
        rw [keepsRules_iff hcodes hreason htext, Delivery.checkString_connectFailed hp]
        simp [hlate]
    | _ => cases h
  | suback a => cases p with
    | subscribe p =>
      have hkeeps := hfixed (congrArg some h.2.2.1) (by simp)
      refine iff_of_true hkeeps fun q hq => ?_
      cases hq
    | _ => cases h
  | unsuback a => cases p with
    | unsubscribe p =>
      have hkeeps := hfixed (congrArg some h.2.2.1) (by simp)
      refine iff_of_true hkeeps fun q hq => ?_
      cases hq
    | _ => cases h

end FailureAck

namespace Broker

/-- Code that breaks off does not run out of time, so a visit fails by a deadline only if its turn ended so. -/
theorem Visited.timeout_iff {c : Chain} {r : Ranked} {rest : List Ranked} {p : Packet} {b b' : Broker}
    {ns : List Move} {v : Visit} (h : Visited c r rest p b ns v b') :
    v.result p = .error .timeout ↔ v.timesOut := by
  cases v with
  | passedOver => simp [Visit.result, Visit.timesOut]
  | broke cause =>
    cases h with
    | broke hon hcall hcause =>
      have hne : cause ≠ .timeout := by
        rintro rfl
        cases hcause
      simpa [Visit.result, Visit.timesOut] using hne
  | ended completion turn =>
    rw [Visit.result_ended]
    cases completion with
    | immediate | resumed => cases turn.prevented <;> simp [Visit.timesOut]
    | timedOut fallback => cases fallback <;> cases turn.prevented <;> simp [Visit.timesOut]

theorem Course.last_failed {c : Chain} {b₀ b : Broker} {ms : List Move} {vs : List (Ranked × Visit)}
    {rest : List Ranked} (h : Course c b₀ ms vs rest b) {f : Failure}
    (hf : foldVisits c.supplied vs = .error f) :
    ∃ passed r v p, vs = passed ++ [(r, v)] ∧ foldVisits c.supplied passed = .ok p ∧
      v.result p = .error f.cause ∧ (f.cause = .timeout ↔ v.timesOut) := by
  cases h with
  | began => cases hf
  | @next ms ns passed r rest p v b b' h hp hv =>
    rw [foldVisits_concat_of_ok hp, foldVisit_eq_error] at hf
    obtain ⟨hcause, -⟩ := hf
    refine ⟨passed, r, v, p, rfl, hp, hcause, ?_⟩
    rw [← hv.timeout_iff, hcause, Except.error.injEq]

/-- In every run, a failure acknowledgement for a packet that was sent through the point of its kind answers that
packet, as it was handed over. Its chain came to its end with the visit that failed, after visits that all had
passed the packet on in some form; only if that last visit ran out of time does the acknowledgement say so. -/
theorem failure_acks_answer (config : Config) (metered : Bool) (ms : List Move) :
    ∀ e ∈ ((ofConfig config metered).play ms).journal, ∀ c r, e.event = .reported c r →
      ∀ inbound clientId ack, c.point = c.supplied.point inbound →
        Delivery.ofReport clientId c.point r = .failureAck ack →
          ∃ passed x v p cause b, Concluded (ofConfig config metered) ms c (passed ++ [(x, v)]) b ∧
            foldVisits c.supplied passed = .ok p ∧ v.result p = .error cause ∧
              ack.Answers v.timesOut c.supplied := by
  intro e he c r hr inbound clientId ack hpoint hack
  obtain ⟨vs, b, hconcluded, rfl⟩ := concluded_of_reported config metered ms he hr
  rw [hpoint] at hack
  obtain ⟨f, hf, hanswers⟩ := Delivery.answers_of_fold (fun f => foldVisits_supplied) hack
  obtain ⟨_, _, _, _, _, -, -, hcourse, -, -⟩ := id hconcluded
  obtain ⟨passed, x, v, p, rfl, hp, hcause, htimeout⟩ := hcourse.last_failed hf
  rw [propext htimeout] at hanswers
  exact ⟨passed, x, v, p, f.cause, b, hconcluded, hp, hcause, hanswers⟩

/-- Two hooks, of which the second refuses what the first has made of a CONNECT. -/
def masking : List Program :=
  [.perform (.call (.edit (.connect (.clientId "masked")))) fun _ => .done, .fail (.other "refused")]

def maskingHook (number : Nat) (program : Program) : Ranked where
  priority := 0
  hook := { extension := "mask", point := .connectInbound, number, respond := fun _ _ => program }

def maskingMoves : List Move :=
  [.openConnection "client" .v5 none, .perform { connection := 0, turn := 0 } (.register "mask" 0)] ++
    masking.map fun program => .add .shared "mask" .connectInbound .connect fun _ _ => program

theorem masked_refused (p : ConnectPacket) :
    let ms := maskingMoves ++ [.submit 0 .connectInbound (.connect p), .begin (0, .connectInbound)]
    ∃ e ∈ ((ofConfig {} true).play ms).journal, ∃ c r f, e.event = .reported c r ∧ r.failure = some f ∧
      f.cause = .error (.other "refused") ∧ f.lastGood = .connect { p with clientId := "masked" } ∧
      c.supplied = .connect p ∧ c.point = c.supplied.point true ∧
      Delivery.ofReport "client" c.point r =
        .failureAck (.connack (.refused .unspecifiedError (Delivery.connectFailed p.clientId))) := by
  intro ms
  let start := (ofConfig {} true).play maskingMoves
  have hordered : start.roster.ordered 0 .connectInbound = masking.zipIdx.map fun x => maskingHook x.2 x.1 :=
    Roster.ordered_of_sorted rfl (by simp [masking, maskingHook, Ranked.precedes])
  have hidle : start.waiting = [] := rfl
  have hplay : (ofConfig {} true).play ms = _ :=
    (play_append ..).trans (play_alone (p := .connect p) hidle rfl (by rfl) hordered)
  rw [hplay]
  exact ⟨_, List.mem_append_right _ (List.mem_singleton_self _), _, _, _, rfl, rfl, rfl, rfl, rfl, rfl, rfl⟩

theorem masked_connect_answered :
    let p : ConnectPacket := { clientId := "client" }
    let ms := maskingMoves ++ [.submit 0 .connectInbound (.connect p), .begin (0, .connectInbound)]
    ∃ e ∈ ((ofConfig {} true).play ms).journal, ∃ c r f ack, e.event = .reported c r ∧ r.failure = some f ∧
      f.lastGood = .connect { p with clientId := "masked" } ∧ c.point = c.supplied.point true ∧
      Delivery.ofReport "client" c.point r = .failureAck ack ∧
      ∃ passed x v q cause b, Concluded (ofConfig {} true) ms c (passed ++ [(x, v)]) b ∧
        foldVisits c.supplied passed = .ok q ∧ v.result q = .error cause ∧ ack.Answers v.timesOut (.connect p) := by
  intro p ms
  obtain ⟨e, he, c, r, f, hr, hf, -, hmasked, hsupplied, hpoint, hack⟩ := masked_refused p
  refine ⟨e, he, c, r, f, _, hr, hf, hmasked, hpoint, hack, ?_⟩
  rw [← hsupplied]
  exact failure_acks_answer {} true ms e he c r hr true "client" _ hpoint hack

/-- In every run, whatever the limits of the broker, a failure acknowledgement for a proper packet that was sent
through the point of its kind has codes of its kind and may have a reason string. The rest of the rules, that the
reason is acceptable as a text of MQTT, it keeps exactly if a CONNECT that is refused for another reason than time
leaves room for the text around its client identifier. -/
theorem failure_acks_keep_rules (config : Config) (metered : Bool) (ms : List Move) :
    ∀ e ∈ ((ofConfig config metered).play ms).journal, ∀ c r, e.event = .reported c r →
      ∀ inbound clientId ack, c.point = c.supplied.point inbound → c.supplied.IsProper {} →
        Delivery.ofReport clientId c.point r = .failureAck ack →
          (∀ code ∈ ack.packet.reasonCodes, ack.packet.admits code) ∧ ack.packet.ReasonInPlace ∧
            (ack.packet.KeepsRules {} ↔
              ∀ p, c.supplied = .connect p → r.TimedOut ∨ p.clientId.utf8ByteSize ≤ 65435) := by
  intro e he c r hr inbound clientId ack hpoint hproper hack
  obtain ⟨vs, b, hconcluded, rfl⟩ := concluded_of_reported config metered ms he hr
  rw [hpoint] at hack
  obtain ⟨f, hf, hanswers⟩ := Delivery.answers_of_fold (fun f => foldVisits_supplied) hack
  refine ⟨hanswers.admits, hanswers.reasonInPlace hproper, ?_⟩
  rw [hanswers.keepsRules hproper]
  have hfailure : ((Report.ofFold c.point (foldVisits c.supplied vs)).onConnection
      (b.roster.isClosed c.connection)).failure = some f := by
    rw [Report.onConnection_failure, Report.ofFold_failure, hf]
  have htimeout : ((Report.ofFold c.point (foldVisits c.supplied vs)).onConnection
      (b.roster.isClosed c.connection)).TimedOut ↔ f.cause = .timeout := by
    unfold Report.TimedOut
    rw [hfailure]
    simp
  rw [htimeout]

theorem masked_connect_keeps_rules :
    let p : ConnectPacket := { clientId := "client" }
    let ms := maskingMoves ++ [.submit 0 .connectInbound (.connect p), .begin (0, .connectInbound)]
    (Packet.connect p).IsProper {} ∧ ∃ e ∈ ((ofConfig {} true).play ms).journal, ∃ c r ack,
      e.event = .reported c r ∧ c.point = c.supplied.point true ∧
        Delivery.ofReport "client" c.point r = .failureAck ack ∧ ack.packet.KeepsRules {} := by
  intro p ms
  have hproper : (Packet.connect p).IsProper {} := PacketLimits.checkString_eq_ok.2 ⟨by decide, by decide⟩
  obtain ⟨e, he, c, r, f, hr, -, -, -, hsupplied, hpoint, hack⟩ := masked_refused p
  refine ⟨hproper, e, he, c, r, _, hr, hpoint, hack, ?_⟩
  have hrules := failure_acks_keep_rules {} true ms e he c r hr true "client" _ hpoint
    (by rw [hsupplied]; exact hproper) hack
  refine hrules.2.2.2 fun q hq => .inr ?_
  obtain rfl : p = q := by simpa [hsupplied] using hq
  decide

def letters (n : Nat) : String := String.ofList (List.replicate n 'a')

theorem utf8ByteSize_letters (n : Nat) : (letters n).utf8ByteSize = n := by
  unfold letters
  induction n with
  | zero => rfl
  | succ n ih =>
    have hchar : (String.singleton 'a').utf8ByteSize = 1 := rfl
    rw [List.replicate_succ, String.ofList_cons, String.utf8ByteSize_append, ih, hchar]
    omega

theorem admitsChars_letters (n : Nat) : ({} : PacketLimits).admitsChars (letters n) := by
  simp only [PacketLimits.admitsChars, letters, String.toList_ofList, List.all_replicate]
  simp [isDiscouraged]

/-- A CONNECT with a client identifier that is acceptable is refused with a reason that is not. -/
theorem longest_refused_against_rules :
    let p : ConnectPacket := { clientId := letters 65535 }
    let ms := maskingMoves ++ [.submit 0 .connectInbound (.connect p), .begin (0, .connectInbound)]
    (Packet.connect p).IsProper {} ∧ ∃ e ∈ ((ofConfig {} true).play ms).journal, ∃ c r a text,
      e.event = .reported c r ∧ c.supplied = .connect p ∧ c.point = c.supplied.point true ∧
        Delivery.ofReport "client" c.point r = .failureAck (.connack a) ∧ a.reasonString = some text ∧
          ({} : PacketLimits).checkString "reason string" text =
            .error (.stringTooLong "reason string" 65635 65535) := by
  intro p ms
  have hlength := utf8ByteSize_letters 65535
  have hproper : (Packet.connect p).IsProper {} :=
    PacketLimits.checkString_eq_ok.2 ⟨Nat.le_of_eq hlength, admitsChars_letters 65535⟩
  obtain ⟨e, he, c, r, f, hr, -, -, -, hsupplied, hpoint, hack⟩ := masked_refused p
  refine ⟨hproper, e, he, c, r, _, _, hr, hsupplied, hpoint, hack, rfl, ?_⟩
  have hsize : (Delivery.connectFailed (letters 65535)).utf8ByteSize = 65635 := by
    rw [Delivery.utf8ByteSize_connectFailed, hlength]
  unfold PacketLimits.checkString
  rw [hsize]
  rfl

end Broker
end BrokerHooks
