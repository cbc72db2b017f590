import LSHelpers.Transition.Run
import LSHelpers.Json.Strict
import LSHelpers.Json.Uint64
import LSHelpers.Arith.Rounding
import LSHelpers.Json.Copy
import LSHelpers.Json.FromString
import LSHelpers.Json.Independence
import LSHelpers.Json.SubObjects
import LSHelpers.Json.MemberOrder
import LSHelpers.Json.NullField
import LSHelpers.Json.Numbers
import LSHelpers.Json.Order
import LSHelpers.Json.ReadFlag
import LSHelpers.Request.Containment
import LSHelpers.Request.Deferred
import LSHelpers.Method.Dispatch
import LSHelpers.Subscription.Deduplicate
import LSHelpers.Subscription.Handles
import LSHelpers.Subscription.Tokens
import LSHelpers.Call.OneReply
import LSHelpers.Call.Table
import LSHelpers.Response.Signal
import LSHelpers.Status.Outstanding
import LSHelpers.Status.Ownership
import LSHelpers.Request.ErrorText
import LSHelpers.Status.Reentrancy
import LSHelpers.Method.Atomicity
import LSHelpers.Status.Exits
import LSHelpers.Json.ValueMap
import LSHelpers.Json.Integers
import LSHelpers.Text.FormatValist
import LSHelpers.Subscription.FirstResponse
import LSHelpers.Request.TypedMethod
import LSHelpers.Call.Return
import LSHelpers.Call.Signalling
import LSHelpers.Subscription.Broadcast
import LSHelpers.Status.Feed
