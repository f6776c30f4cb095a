import SpanRelay.Payload.Basic

/-! What comes of an attempt to deliver: the class of an answer, and the payload to try again. -/
namespace SpanRelay

inductive ResponseClass where
  | success
  | permanent
  | retryable
  deriving DecidableEq, Repr

def ResponseClass.label : ResponseClass → String
  | success => "success"
  | permanent => "permanent"
  | retryable => "retryable"

/-- Success is 200 to 299; the other answers below 500 and above 399 are final, a few apart. -/
def ResponseClass.ofStatus (status : Nat) : ResponseClass :=
  if 200 ≤ status ∧ status ≤ 299 then success
  else if [402, 407, 408, 429].contains status then retryable
  else if 400 ≤ status ∧ status ≤ 499 then permanent
  else retryable

inductive DeliveryResult where
  | success
  | failed (payload : Option Payload) (canRetry : Bool)
  deriving DecidableEq, Repr

namespace DeliveryResult

def isSuccess : DeliveryResult → Bool
  | success => true
  | failed _ _ => false

def canRetry : DeliveryResult → Bool
  | success => false
  | failed _ canRetry => canRetry

def retryablePayload? : DeliveryResult → Option Payload
  | failed (some p) true => some p
  | _ => none

end DeliveryResult

def ResponseClass.resultFor (p : Payload) : ResponseClass → DeliveryResult
  | success => .success
  | permanent => .failed (some p) false
  | retryable => .failed (some p) true

/-- What a remote end does with a request: it answers with a status, or the request is lost. -/
inductive Reply where
  | status (code : Nat)
  | lost (canRetry : Bool)
  deriving DecidableEq, Repr

def Reply.resultFor (p : Payload) : Reply → DeliveryResult
  | status code => (ResponseClass.ofStatus code).resultFor p
  | lost canRetry => .failed none canRetry

end SpanRelay
