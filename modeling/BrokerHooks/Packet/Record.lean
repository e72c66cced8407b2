import BrokerHooks.Packet.Limits
import BrokerHooks.Packet.Basic
import BrokerHooks.Record

namespace BrokerHooks

open Datum

def ReasonCode.datum (c : ReasonCode) : Datum := .nat c.byte.toNat

def UserProperties.datum (ps : UserProperties) : Datum :=
  listOf (fun p => .list [.text p.name, .text p.value]) ps

def AckKind.label : AckKind → String
  | .puback => "puback"
  | .pubrec => "pubrec"
  | .pubrel => "pubrel"
  | .pubcomp => "pubcomp"

def WillMessage.datum (w : WillMessage) : Datum := .record [
  ("topic", .text w.topic),
  ("payload", hex w.payload),
  ("qos", .nat w.qos.level),
  ("retain", .flag w.retain),
  ("delay_interval", .nat w.delayInterval.toNat),
  ("user_properties", w.userProperties.datum)]

def Subscription.datum (s : Subscription) : Datum := .record [
  ("topic_filter", .text s.topicFilter),
  ("qos", .nat s.qos.level),
  ("retain_handling", .nat s.retainHandling.number),
  ("retain_as_published", .flag s.retainAsPublished),
  ("no_local", .flag s.noLocal)]

def Direction.fields : Direction → List (String × Datum)
  | .inbound expiry =>
    [("direction", .text "inbound"), ("connect_session_expiry_interval", .nat expiry.toNat)]
  | .outbound => [("direction", .text "outbound")]

def acknowledgementFields (id : UInt16) (codes : List ReasonCode) (reason : Option String)
    (ps : UserProperties) : List (String × Datum) := [
  ("packet_id", .nat id.toNat),
  ("reason_codes", listOf ReasonCode.datum codes),
  ("reason_string", option .text reason),
  ("user_properties", ps.datum)]

namespace Packet

def fields : Packet → List (String × Datum)
  | .connect p => [
      ("type", .text "connect"),
      ("protocol_version", .nat p.protocolVersion.number),
      ("client_id", .text p.clientId),
      ("clean_start", .flag p.cleanStart),
      ("keep_alive", .nat p.keepAlive.toNat),
      ("session_expiry_interval", .nat p.sessionExpiryInterval.toNat),
      ("receive_maximum", .nat p.receiveMaximum.toNat),
      ("maximum_packet_size", .nat p.maximumPacketSize.toNat),
      ("topic_alias_maximum", .nat p.topicAliasMaximum.toNat),
      ("request_response_information", .flag p.requestResponseInformation),
      ("request_problem_information", .flag p.requestProblemInformation),
      ("username", option .text p.username),
      ("password", option hex p.password),
      ("auth_method", option .text p.authMethod),
      ("auth_data", option hex p.authData),
      ("will", option WillMessage.datum p.will),
      ("user_properties", p.userProperties.datum)]
  | .connack p => [
      ("type", .text "connack"),
      ("reason_code", p.reasonCode.datum),
      ("session_present", .flag p.sessionPresent),
      ("reason_string", option .text p.reasonString),
      ("response_information", option .text p.responseInformation),
      ("server_reference", option .text p.serverReference),
      ("assigned_client_identifier", option .text p.assignedClientIdentifier),
      ("response_information_requested", .flag p.responseInformationRequested),
      ("user_properties", p.userProperties.datum)]
  | .ack p => [
      ("type", .text p.kind.label),
      ("packet_id", .nat p.packetId.toNat),
      ("reason_code", p.reasonCode.datum),
      ("reason_string", option .text p.reasonString),
      ("user_properties", p.userProperties.datum)]
  | .subscribe p => [
      ("type", .text "subscribe"),
      ("packet_id", .nat p.packetId.toNat),
      ("subscriptions", listOf Subscription.datum p.subscriptions),
      ("subscription_identifier", option (fun n => .nat n.toNat) p.subscriptionIdentifier),
      ("user_properties", p.userProperties.datum)]
  | .suback p =>
    ("type", .text "suback") ::
      acknowledgementFields p.packetId p.reasonCodes p.reasonString p.userProperties
  | .unsubscribe p => [
      ("type", .text "unsubscribe"),
      ("packet_id", .nat p.packetId.toNat),
      ("topic_filters", listOf .text p.topicFilters),
      ("user_properties", p.userProperties.datum)]
  | .unsuback p =>
    ("type", .text "unsuback") ::
      acknowledgementFields p.packetId p.reasonCodes p.reasonString p.userProperties
  | .ping .request => [("type", .text "pingreq")]
  | .ping .response => [("type", .text "pingresp")]
  | .disconnect p =>
    ("type", .text "disconnect") :: p.direction.fields ++ [
      ("reason_code", p.reasonCode.datum),
      ("reason_string", option .text p.reasonString),
      ("session_expiry_interval", option (fun n => .nat n.toNat) p.sessionExpiryInterval),
      ("server_reference", option .text p.serverReference),
      ("user_properties", p.userProperties.datum)]

def datum (p : Packet) : Datum := .record p.fields

end Packet

def PacketLimits.datum (l : PacketLimits) : Datum := .record [
  ("max_string_length", .nat l.maxStringLength),
  ("validate_utf8", .flag l.validateUtf8),
  ("max_keep_alive", .nat l.maxKeepAlive.toNat),
  ("max_session_expiry_interval", .nat l.maxSessionExpiryInterval.toNat),
  ("max_packet_size", .nat l.maxPacketSize.toNat),
  ("max_qos", .nat l.maxQos.level),
  ("wildcard_subscriptions", .flag l.wildcardSubscriptions),
  ("shared_subscriptions", .flag l.sharedSubscriptions)]

end BrokerHooks
