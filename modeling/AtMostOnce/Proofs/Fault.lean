import AtMostOnce.Fault
import AtMostOnce.Proofs.Json.Record
import AtMostOnce.RequestId

/-! What crosses the wire. The text of a name or of a fault is read as what it was written of, so no
two of them have the same text. -/
namespace AtMostOnce

namespace Json

/-- Values survive being written: every one is read back from its text, and different ones have
different texts. -/
def Survive {α : Type} (toJson : α → String) (ofJson : Bytes → Except ReadError α) : Prop :=
  (∀ a, ofJson (Text.Utf8.encode (toJson a)) = .ok a) ∧ Function.Injective toJson

/-- A text can be read as one value only. -/
theorem survive_of_read {α : Type} {toJson : α → String} {ofJson : Bytes → Except ReadError α}
    (h : ∀ a, ofJson (Text.Utf8.encode (toJson a)) = .ok a) : Survive toJson ofJson := by
  refine ⟨h, fun a b hab => ?_⟩
  have hread : (.ok a : Except ReadError α) = .ok b := by rw [← h a, hab, h b]
  exact Except.ok.inj hread

end Json

theorem RequestId.ofJson_toJson (r : RequestId) :
    RequestId.ofJson (Text.Utf8.encode r.toJson) = .ok r := by
  have hread := Json.readString_literal r.text []
  rw [List.append_nil] at hread
  rw [RequestId.ofJson, RequestId.toJson, hread]
  rfl

theorem DomainFault.ofJson_toJson (f : DomainFault) :
    DomainFault.ofJson (Text.Utf8.encode f.toJson) = .ok f := by
  have hread : Json.whole (Json.readRecord ["code", "message"] (Text.Utf8.encode f.toJson)) =
      .ok [f.code, f.message] :=
    Json.whole_readRecord_record [("code", f.code), ("message", f.message)]
      (by decide : ["code", "message"].Nodup)
  rw [DomainFault.ofJson, hread]
  rfl

theorem IoFault.ofJson_toJson (f : IoFault) :
    IoFault.ofJson (Text.Utf8.encode f.toJson) = .ok f := by
  have hread : Json.whole (Json.readRecord ["message"] (Text.Utf8.encode f.toJson)) =
      .ok [f.message] :=
    Json.whole_readRecord_record [("message", f.message)] (List.nodup_singleton _)
  rw [IoFault.ofJson, hread]
  rfl

/-- Names of calls, faults of the handler's domain and faults of input or output survive the wire,
whatever characters they are made of. -/
theorem wire_values_survive :
    Json.Survive RequestId.toJson RequestId.ofJson ∧
      Json.Survive DomainFault.toJson DomainFault.ofJson ∧
      Json.Survive IoFault.toJson IoFault.ofJson :=
  ⟨Json.survive_of_read RequestId.ofJson_toJson, Json.survive_of_read DomainFault.ofJson_toJson,
    Json.survive_of_read IoFault.ofJson_toJson⟩

end AtMostOnce
