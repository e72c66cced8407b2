import BrokerHooks.Packet.Basic
import BrokerHooks.Packet.Limits

namespace BrokerHooks

/-- A packet or a part of one after a change, and whether the change made a difference. -/
structure Revision (α : Type) where
  value : α
  differs : Bool
deriving DecidableEq, Repr

namespace Revision

variable {α β : Type}

/-- A change that finds nothing to do. -/
def kept (value : α) : Revision α := { value, differs := false }

/-- `new` takes the place of `old`, which leaves `value`. -/
def store [DecidableEq β] (old new : β) (value : α) : Revision α := { value, differs := old ≠ new }

def grown (value : List α) : Revision (List α) := { value, differs := true }

/-- What a removal leaves of a list; it made a difference where it removed something. -/
def pruned (before value : List α) : Revision (List α) :=
  { value, differs := 0 < before.length - value.length }

def map (f : α → β) (r : Revision α) : Revision β := { value := f r.value, differs := r.differs }

end Revision

/-- A code may replace another that lies on the same side of `0x80`, where the packet admits it. -/
def checkReasonCode (packet : String) (allowed : ReasonCode → Bool) (current next : ReasonCode) :
    Except PacketError Unit :=
  if !allowed next then .error (.reasonCodeNotAllowed packet next)
  else if current.crosses next then .error (.reasonCodeSwitch current next)
  else .ok ()

/-- Checks entry by entry, from the first, after the lengths. -/
def checkReasonCodes (packet : String) (allowed : ReasonCode → Bool)
    (current next : List ReasonCode) : Except PacketError Unit :=
  if next.length ≠ current.length then
    .error (.lengthMismatch current.length next.length)
  else
    (current.zip next).forM fun (old, new) => checkReasonCode packet allowed old new

def entryAt {α : Type} (xs : List α) (index : Nat) : Except PacketError α :=
  match xs[index]? with
  | some x => .ok x
  | none => .error (.indexOutOfBounds index xs.length)

def checkAtMost (field : String) (value max : Nat) : Except PacketError Unit :=
  if value > max then .error (.outOfRange field value max) else .ok ()

def checkProperty (limits : PacketLimits) (p : UserProperty) : Except PacketError Unit := do
  limits.checkString "user property name" p.name
  limits.checkString "user property value" p.value

def checkWill (limits : PacketLimits) (will : WillMessage) : Except PacketError Unit := do
  if will.topic.isEmpty then .error (.empty "will topic")
  else if TopicFilter.hasWildcard will.topic then .error (.notAllowed .willTopicWildcard)
  else
    limits.checkString "will topic" will.topic
    checkAtMost "will qos" will.qos.level limits.maxQos.level
    will.userProperties.forM (checkProperty limits)

inductive ConnectEdit where
  | clientId (value : String)
  | cleanStart (value : Bool)
  | keepAlive (value : UInt16)
  | sessionExpiryInterval (value : UInt32)
  | receiveMaximum (value : UInt16)
  | maximumPacketSize (value : UInt32)
  | topicAliasMaximum (value : UInt16)
  | requestResponseInformation (value : Bool)
  | requestProblemInformation (value : Bool)
  | username (value : Option String)
  | password (value : Option Bytes)
  | authMethod (value : Option String)
  | authData (value : Option Bytes)
  | will (value : Option WillMessage)
deriving DecidableEq, Repr

def ConnectEdit.apply (limits : PacketLimits) (p : ConnectPacket) :
    ConnectEdit → Except PacketError (Revision ConnectPacket)
  | .clientId value =>
    if value.isEmpty then .error (.empty "client id")
    else do
      limits.checkString "client id" value
      .ok (.store p.clientId value { p with clientId := value })
  | .cleanStart value => .ok (.store p.cleanStart value { p with cleanStart := value })
  | .keepAlive value => do
    checkAtMost "keep alive" value.toNat limits.maxKeepAlive.toNat
    .ok (.store p.keepAlive value { p with keepAlive := value })
  | .sessionExpiryInterval value => do
    checkAtMost "session expiry interval" value.toNat limits.maxSessionExpiryInterval.toNat
    .ok (.store p.sessionExpiryInterval value { p with sessionExpiryInterval := value })
  | .receiveMaximum value =>
    if value = 0 then .error (.empty "receive maximum")
    else .ok (.store p.receiveMaximum value { p with receiveMaximum := value })
  | .maximumPacketSize value =>
    if value = 0 then .error (.empty "maximum packet size")
    else do
      checkAtMost "maximum packet size" value.toNat limits.maxPacketSize.toNat
      .ok (.store p.maximumPacketSize value { p with maximumPacketSize := value })
  | .topicAliasMaximum value =>
    .ok (.store p.topicAliasMaximum value { p with topicAliasMaximum := value })
  | .requestResponseInformation value =>
    .ok (.store p.requestResponseInformation value { p with requestResponseInformation := value })
  | .requestProblemInformation value =>
    .ok (.store p.requestProblemInformation value { p with requestProblemInformation := value })
  | .username value => do
    limits.checkOptional "username" value
    .ok (.store p.username value { p with username := value })
  | .password value => .ok (.store p.password value { p with password := value })
  | .authMethod value => do
    limits.checkOptional "authentication method" value
    .ok (.store p.authMethod value { p with authMethod := value })
  | .authData value => .ok (.store p.authData value { p with authData := value })
  | .will none => .ok (.store p.will none { p with will := none })
  | .will (some value) => do
    checkWill limits value
    .ok (.store p.will (some value) { p with will := some value })

inductive ConnackEdit where
  | reasonCode (value : ReasonCode)
  | responseInformation (value : Option String)
  | serverReference (value : Option String)
deriving DecidableEq, Repr

def ConnackEdit.apply (limits : PacketLimits) (p : ConnackPacket) :
    ConnackEdit → Except PacketError (Revision ConnackPacket)
  | .reasonCode value => do
    checkReasonCode "CONNACK" ReasonCode.inConnack p.reasonCode value
    .ok (.store p.reasonCode value { p with reasonCode := value })
  | .responseInformation value =>
    if value.isSome && !p.responseInformationRequested then
      .error (.notAllowed .responseInformationNotRequested)
    else do
      limits.checkOptional "response information" value
      .ok (.store p.responseInformation value { p with responseInformation := value })
  | .serverReference value => do
    limits.checkOptional "server reference" value
    .ok (.store p.serverReference value { p with serverReference := value })

def AckPacket.withReasonCode (p : AckPacket) (value : ReasonCode) :
    Except PacketError (Revision AckPacket) := do
  checkReasonCode p.kind.name p.kind.allows p.reasonCode value
  .ok (.store p.reasonCode value { p with reasonCode := value })

inductive SubscriptionEdit where
  | topicFilter (value : String)
  | qos (value : Qos)
  | retainHandling (value : RetainHandling)
  | retainAsPublished (value : Bool)
  | noLocal (value : Bool)
deriving DecidableEq, Repr

/-- A filter that stays the same is not checked again. -/
def SubscriptionEdit.apply (limits : PacketLimits) (s : Subscription) :
    SubscriptionEdit → Except PacketError (Revision Subscription)
  | .topicFilter value =>
    if s.topicFilter = value then .ok (.kept s)
    else if s.noLocal && TopicFilter.isShared value then .error (.notAllowed .sharedNoLocal)
    else do
      limits.checkTopicFilter value
      .ok (.store s.topicFilter value { s with topicFilter := value })
  | .qos value => do
    checkAtMost "subscription qos" value.level limits.maxQos.level
    .ok (.store s.qos value { s with qos := value })
  | .retainHandling value =>
    .ok (.store s.retainHandling value { s with retainHandling := value })
  | .retainAsPublished value =>
    .ok (.store s.retainAsPublished value { s with retainAsPublished := value })
  | .noLocal value =>
    if value && TopicFilter.isShared s.topicFilter then .error (.notAllowed .sharedNoLocal)
    else .ok (.store s.noLocal value { s with noLocal := value })

def SubscribePacket.editAt (limits : PacketLimits) (p : SubscribePacket) (index : Nat)
    (e : SubscriptionEdit) : Except PacketError (Revision SubscribePacket) := do
  let current ← entryAt p.subscriptions index
  let changed ← e.apply limits current
  .ok (changed.map fun s => { p with subscriptions := p.subscriptions.set index s })

inductive ListEdit (α : Type) where
  | all (values : List α)
  | at (index : Nat) (value : α)
deriving DecidableEq, Repr

/-- The list as the change would leave it; the rules then judge that list as a whole. -/
def ListEdit.target {α : Type} (current : List α) : ListEdit α → Except PacketError (List α)
  | .all values => .ok values
  | .at index value => do
    let _ ← entryAt current index
    .ok (current.set index value)

def UnsubscribePacket.editFilters (limits : PacketLimits) (p : UnsubscribePacket)
    (e : ListEdit String) : Except PacketError (Revision UnsubscribePacket) := do
  let filters ← e.target p.topicFilters
  if filters.length ≠ p.topicFilters.length then
    .error (.lengthMismatch p.topicFilters.length filters.length)
  else
    filters.forM limits.checkTopicFilter
    .ok (.store p.topicFilters filters { p with topicFilters := filters })

def SubackPacket.editCodes (p : SubackPacket) (e : ListEdit ReasonCode) :
    Except PacketError (Revision SubackPacket) := do
  let codes ← e.target p.reasonCodes
  checkReasonCodes "SUBACK" ReasonCode.inSuback p.reasonCodes codes
  .ok (.store p.reasonCodes codes { p with reasonCodes := codes })

def UnsubackPacket.editCodes (p : UnsubackPacket) (e : ListEdit ReasonCode) :
    Except PacketError (Revision UnsubackPacket) := do
  let codes ← e.target p.reasonCodes
  checkReasonCodes "UNSUBACK" ReasonCode.inUnsuback p.reasonCodes codes
  .ok (.store p.reasonCodes codes { p with reasonCodes := codes })

inductive DisconnectEdit where
  | reasonCode (value : ReasonCode)
  | sessionExpiryInterval (value : Option UInt32)
  | serverReference (value : Option String)
deriving DecidableEq, Repr

/-- A client that connected without a lasting session cannot ask for one when it leaves. -/
def checkSessionExpiry (limits : PacketLimits) (connectExpiry : UInt32) :
    Option UInt32 → Except PacketError Unit
  | none => .ok ()
  | some value => do
    checkAtMost "session expiry interval" value.toNat limits.maxSessionExpiryInterval.toNat
    if 0 < value ∧ connectExpiry = 0 then .error (.notAllowed .sessionExpiryFromZero)
    else .ok ()

def DisconnectEdit.apply (limits : PacketLimits) (p : DisconnectPacket) :
    DisconnectEdit → Except PacketError (Revision DisconnectPacket)
  | .reasonCode value =>
    if p.allows value then .ok (.store p.reasonCode value { p with reasonCode := value })
    else .error (.reasonCodeNotAllowed "DISCONNECT" value)
  | .sessionExpiryInterval value =>
    match p.direction with
    | .outbound => .error (.notAllowed .sessionExpiryOutbound)
    | .inbound connectExpiry =>
      if p.sessionExpiryInterval = value then .ok (.kept p)
      else do
        checkSessionExpiry limits connectExpiry value
        .ok (.store p.sessionExpiryInterval value { p with sessionExpiryInterval := value })
  | .serverReference value =>
    if p.isInbound then .error (.notAllowed .serverReferenceInbound)
    else do
      limits.checkOptional "server reference" value
      .ok (.store p.serverReference value { p with serverReference := value })

inductive PropertyEdit where
  | add (p : UserProperty)
  | remove (p : UserProperty)
  | removeName (name : String)
  | clear
deriving DecidableEq, Repr

def PropertyEdit.apply (limits : PacketLimits) (ps : UserProperties) :
    PropertyEdit → Except PacketError (Revision UserProperties)
  | .add p => do
    checkProperty limits p
    .ok (.grown (ps ++ [p]))
  | .remove p => .ok (.pruned ps (ps.removePair p))
  | .removeName name => .ok (.pruned ps (ps.removeName name))
  | .clear => .ok (.pruned ps [])

inductive Edit where
  | property (e : PropertyEdit)
  | reasonString (value : Option String)
  | connect (e : ConnectEdit)
  | connack (e : ConnackEdit)
  | ackReasonCode (value : ReasonCode)
  | subscription (index : Nat) (e : SubscriptionEdit)
  | subackCodes (e : ListEdit ReasonCode)
  | topicFilters (e : ListEdit String)
  | unsubackCodes (e : ListEdit ReasonCode)
  | disconnect (e : DisconnectEdit)
deriving DecidableEq, Repr

namespace Edit

/-- A reason string goes only with a failure, except on a DISCONNECT. -/
def setReasonString (limits : PacketLimits) (p : Packet) (value : Option String) :
    Except PacketError (Revision Packet) :=
  match p.allowsReasonString? with
  | none => .error (.inapplicable p.name)
  | some allowed => do
    limits.checkOptional "reason string" value
    if value.isSome && !allowed then .error (.reasonStringOnSuccess p.name)
    else .ok (.store p.reasonString? (some value) (p.withReasonString value))

def setUserProperties (limits : PacketLimits) (p : Packet) (e : PropertyEdit) :
    Except PacketError (Revision Packet) :=
  match p.userProperties? with
  | none => .error (.inapplicable p.name)
  | some ps => do
    let changed ← e.apply limits ps
    .ok (changed.map p.withUserProperties)

def apply (limits : PacketLimits) : Edit → Packet → Except PacketError (Revision Packet)
  | .property e, p => setUserProperties limits p e
  | .reasonString value, p => setReasonString limits p value
  | .connect e, .connect p => (e.apply limits p).map (·.map .connect)
  | .connack e, .connack p => (e.apply limits p).map (·.map .connack)
  | .ackReasonCode value, .ack p => (p.withReasonCode value).map (·.map .ack)
  | .subscription index e, .subscribe p => (p.editAt limits index e).map (·.map .subscribe)
  | .subackCodes e, .suback p => (p.editCodes e).map (·.map .suback)
  | .topicFilters e, .unsubscribe p => (p.editFilters limits e).map (·.map .unsubscribe)
  | .unsubackCodes e, .unsuback p => (p.editCodes e).map (·.map .unsuback)
  | .disconnect e, .disconnect p => (e.apply limits p).map (·.map .disconnect)
  | _, p => .error (.inapplicable p.name)

end Edit
end BrokerHooks
