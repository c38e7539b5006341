import Spdz.Proofs.Protocol.Turn
import Spdz.Protocol.Multiply
import Spdz.Protocol.Open

/-!
# The turns of protocols that open shares

An opening takes two turns.  In the first one the party sends shares, of which some may be less what it
has drawn.  In the second one it adds up what its peers sent, whatever that is, and records the sum.

* `Open.play_zero`, `Open.play_one` — opening to all.
* `OpenTo.play_zero`, `OpenTo.play_one` — opening to one party.
* `Multiply.play_zero`, `Multiply.play_one` — opening the two differences of a multiplication.
-/

namespace Spdz

variable {F : FieldSpec} {σ : Type} {peers : List PartyId} {S : Party F σ}
  {came later : PartyId → List Bytes} {message : PartyId → Bytes} {got : PartyId → List (Elem F)}
  {out : List Bytes}

namespace Open

variable {share : Share F}

theorem play_zero : (evaluate 0 : Round F σ _ _).play peers { share } S (.among peers came out)
    = some (((.ok .hasMoreRounds, { share }), S),
        .among peers came (out ++ [Elem.encodeList [share.value]])) := by
  simp only [evaluate, Round.play_bind, Round.play_get, Option.bind_some, Round.proceed_ok,
    Round.play_sendElements, Round.play_pure]

theorem play_one (read : ∀ peer ∈ peers, Elem.decodeList F (message peer) 1 = some (.ok (got peer)))
    {value : Elem F} (sum : sumAt share.value (receivedFrom peers got) 0 = value) :
    (evaluate 1 : Round F σ _ _).play peers { share } S
        (.among peers (fun peer => message peer :: later peer) out)
      = some (((.ok .isDone, { share, output := some value }),
          { S with opened := S.opened.push share value }), .among peers later out) := by
  subst sum
  simp only [evaluate, Round.play_bind, Round.play_get, Option.bind_some, Round.proceed_ok,
    Round.play_receiveRead read, Round.play_record, Round.play_modify, Round.play_pure]
  rfl

end Open

namespace OpenTo

variable [Supplier F σ] {share : Share F} {target : PartyId} {mask : InputMask F}

theorem play_zero (drawn : (Supplier.draw (F := F) (.mask target) S.supplier).1 = .ok mask) :
    (evaluate 0 : Round F σ _ _).play peers { share, target } S (.among peers came out)
      = some (((.ok .hasMoreRounds, { share, target, mask := some mask }),
          { S with supplier := (Supplier.draw (F := F) (.mask target) S.supplier).2 }),
        .among peers came (out ++ [Elem.encodeList [(share - mask.mask).value]])) := by
  simp only [evaluate, Round.play_bind, Round.play_get, Option.bind_some, Round.proceed_ok,
    Round.play_draw (.mask target), drawn, Except.mapError, Round.play_sendElements, Round.play_set,
    Round.play_pure]

theorem play_one (read : ∀ peer ∈ peers, Elem.decodeList F (message peer) 1 = some (.ok (got peer)))
    {value real : Elem F} (known : S.id = target → mask.real = some real)
    (sum : sumAt (share - mask.mask).value (receivedFrom peers got) 0 = value) :
    (evaluate 1 : Round F σ _ _).play peers { share, target, mask := some mask } S
        (.among peers (fun peer => message peer :: later peer) out)
      = some (((.ok .isDone, {
            share, target, mask := some mask
            output := some (if S.id = target then some (value + real) else none) }),
          { S with opened := S.opened.push (share - mask.mask) value }), .among peers later out) := by
  subst sum
  simp only [evaluate, Round.play_bind, Round.play_get, Option.bind_some, Round.proceed_ok,
    Round.play_receiveRead read, Round.play_record, Round.play_party]
  by_cases here : S.id = target
  · simp only [if_pos here, known here, Round.play_pure, Round.play_bind, Option.bind_some,
      Round.proceed_ok, Round.play_set]
    rfl
  · simp only [if_neg here, Round.play_pure, Round.play_bind, Option.bind_some, Round.proceed_ok,
      Round.play_set]
    rfl

end OpenTo

namespace Multiply

variable [Supplier F σ] {x y : Share F} {triple : Triple F}

theorem play_zero (drawn : (Supplier.draw (F := F) .triple S.supplier).1 = .ok triple) :
    (evaluate 0 : Round F σ _ _).play peers { x, y } S (.among peers came out)
      = some (((.ok .hasMoreRounds, { x, y, triple := some triple }),
          { S with supplier := (Supplier.draw (F := F) .triple S.supplier).2 }),
        .among peers came
          (out ++ [Elem.encodeList [(x - triple.a).value, (y - triple.b).value]])) := by
  simp only [evaluate, Round.play_bind, Round.play_get, Option.bind_some, Round.proceed_ok,
    Round.play_draw .triple, drawn, Except.mapError, Round.play_sendElements, Round.play_set,
    Round.play_pure]

theorem play_one (read : ∀ peer ∈ peers, Elem.decodeList F (message peer) 2 = some (.ok (got peer)))
    {e d : Elem F} (sumE : sumAt (x - triple.a).value (receivedFrom peers got) 0 = e)
    (sumD : sumAt (y - triple.b).value (receivedFrom peers got) 1 = d) :
    (evaluate 1 : Round F σ _ _).play peers { x, y, triple := some triple } S
        (.among peers (fun peer => message peer :: later peer) out)
      = some (((.ok .isDone, {
            x, y, triple := some triple
            output := some ((triple.c + triple.b.scale e + triple.a.scale d).addPublic (e * d)
              S.keyShare S.id) }),
          { S with opened := (S.opened.push (x - triple.a) e).push (y - triple.b) d }),
        .among peers later out) := by
  subst sumE sumD
  simp only [evaluate, Round.play_bind, Round.play_get, Option.bind_some, Round.proceed_ok,
    Round.play_receiveRead read, Round.play_record, Round.play_party, Round.play_set, Round.play_pure]
  rfl

end Multiply

end Spdz
