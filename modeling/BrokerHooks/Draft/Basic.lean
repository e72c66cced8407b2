import BrokerHooks.Draft.Edit

namespace BrokerHooks

structure Draft where
  packet : Packet
  modified : Bool := false
  limits : PacketLimits
deriving DecidableEq, Repr, Inhabited

inductive Query where
  | firstProperty (name : String)
  | allProperties (name : String)
  | propertyCount
  | reasonString
deriving DecidableEq, Repr

inductive Call where
  | edit (e : Edit)
  | query (q : Query)
deriving DecidableEq, Repr

inductive Reply where
  | done
  | removed (count : Nat)
  | text (value : Option String)
  | texts (values : List String)
  | size (count : Nat)
deriving DecidableEq, Repr

namespace Draft

def ofPacket (limits : PacketLimits) (p : Packet) : Draft := { packet := p, limits }

/-- Takes a change in; a draft counts as modified from the first one that makes a difference. -/
def revise (d : Draft) (r : Revision Packet) : Draft :=
  { d with packet := r.value, modified := d.modified || r.differs }

def removedCount (d e : Draft) : Nat :=
  (d.packet.userProperties?.getD []).length - (e.packet.userProperties?.getD []).length

def edit (d : Draft) (e : Edit) : Except PacketError Draft :=
  (e.apply d.limits d.packet).map d.revise

def reply (d e : Draft) : Edit → Reply
  | .property (.remove _) | .property (.removeName _) => .removed (d.removedCount e)
  | _ => .done

def query (d : Draft) (q : Query) : Except PacketError Reply :=
  match q, d.packet.userProperties?, d.packet.reasonString? with
  | .firstProperty name, some ps, _ => .ok (.text (ps.getFirst? name))
  | .allProperties name, some ps, _ => .ok (.texts (ps.getAll name))
  | .propertyCount, some ps, _ => .ok (.size ps.length)
  | .reasonString, _, some value => .ok (.text value)
  | _, _, _ => .error (.inapplicable d.packet.name)

/-- The answer to a call, and the draft after it; a refused call leaves the draft as it was. -/
def call (d : Draft) : Call → Except PacketError Reply × Draft
  | .query q => (d.query q, d)
  | .edit e =>
    match d.edit e with
    | .ok changed => (.ok (d.reply changed e), changed)
    | .error err => (.error err, d)

def after (d : Draft) (cs : List Call) : Draft := cs.foldl (fun d c => (d.call c).2) d

@[simp] theorem limits_revise (d : Draft) (r : Revision Packet) :
    (d.revise r).limits = d.limits := rfl

theorem call_edit_of_ok {d : Draft} {e : Edit} {r : Revision Packet}
    (h : e.apply d.limits d.packet = .ok r) :
    d.call (.edit e) = (.ok (d.reply (d.revise r) e), d.revise r) := by
  simp [call, edit, h, Except.map]

theorem call_edit_of_error {d : Draft} {e : Edit} {err : PacketError}
    (h : e.apply d.limits d.packet = .error err) : d.call (.edit e) = (.error err, d) := by
  simp [call, edit, h, Except.map]

@[simp] theorem after_nil (d : Draft) : d.after [] = d := rfl

@[simp] theorem after_cons (d : Draft) (c : Call) (cs : List Call) :
    d.after (c :: cs) = (d.call c).2.after cs := rfl

theorem after_append (d : Draft) (cs cs' : List Call) :
    d.after (cs ++ cs') = (d.after cs).after cs' := by
  rw [after, after, after, List.foldl_append]

end Draft
end BrokerHooks
