import Mathlib
/-
`server/lib/snowflake.go`: `Transport.Listen`, and how `server/server.go`'s `main` reports its
result to tor, `SMETHOD` on success and `SMETHOD-ERROR` on an error.

`Listen` starts `ListenAndServe` (or `ListenAndServeTLS`) in a goroutine, which sends its error on
`errChan`. It then waits for that error or for `listenAndServeErrorTimeout`, "to see if an error is
returned". Both cases of the `select` only `break`; the value received from `errChan` is bound to
nothing. The `if err != nil` after the `select` reads the `err` of `http2.ConfigureServer`, which
was `nil` to get there.

## The model

`listen` is `Listen` over what its calls return: `http2.ConfigureServer`, the case the `select`
takes, and `kcp.ServeConn` for each `pconn`, in order. The listener records the number of KCP
listeners started.

## What is proved

`listen_select_irrelevant`: the case the `select` takes changes nothing. So an error from
`ListenAndServe` before the timeout still gives a listener with every KCP instance started, and
`main` reports `SMETHOD` for the bind address (`listen_errChan_ignored`).
-/

set_option autoImplicit false

namespace Snowflake.Server

variable {ε : Type}

/-- The case the `select` of `Listen` takes. -/
inductive SelectCase (ε : Type)
  /-- `case <-errChan`: the goroutine sent what `ListenAndServe` returned. -/
  | errChan (err : Option ε)
  /-- `case <-time.After(listenAndServeErrorTimeout)`. -/
  | timeout

/-- `SnowflakeListener`, with the number of entries of `ln`, the KCP listeners started. -/
structure SnowflakeListener where
  ln : Nat
  deriving DecidableEq, Repr

/-- The loop over `handler.pconns`: `kcp.ServeConn` for each, in order, from `n` started. On an
error the server is closed and the error returned. -/
def serveKCP : List (Option ε) → Nat → Except ε SnowflakeListener
  | [], n => .ok ⟨n⟩
  | some err :: _, _ => .error err
  | none :: serveConn, n => serveKCP serveConn (n + 1)

/-- `Listen`, with `configureServer` what `http2.ConfigureServer` returned, `sel` the case the
`select` took, and `serveConn` what each `kcp.ServeConn` returns. -/
def listen (configureServer : Option ε) (sel : SelectCase ε) (serveConn : List (Option ε)) :
    Except ε SnowflakeListener :=
  let err := configureServer
  match err with
  | some e => .error e
  | none =>
    match sel with
    | .errChan _ | .timeout =>
      -- `if err != nil`: the `err` of `http2.ConfigureServer`
      match err with
      | some e => .error e
      | none => serveKCP serveConn 0

/-- What `main` reports to tor for a bind address. -/
inductive SmethodLine (ε : Type)
  /-- `pt.SmethodError(methodName, err.Error())`. -/
  | smethodError (methodName : String) (err : ε)
  /-- `pt.SmethodArgs(methodName, bindaddr.Addr, args)`. -/
  | smethodArgs (methodName : String)

/-- `main` after `transport.Listen` for the bind address of `methodName`. -/
def reportListen (methodName : String) : Except ε SnowflakeListener → SmethodLine ε
  | .error err => .smethodError methodName err
  | .ok _ => .smethodArgs methodName

theorem listen_select_irrelevant (configureServer : Option ε) (sel : SelectCase ε)
    (serveConn : List (Option ε)) :
    listen configureServer sel serveConn = listen configureServer .timeout serveConn := by
  cases configureServer with
  | some e => rfl
  | none => cases sel <;> rfl

/-- When every `kcp.ServeConn` succeeds, all of them are started. -/
theorem serveKCP_of_forall_none {serveConn : List (Option ε)} (h : ∀ r ∈ serveConn, r = none)
    (n : Nat) : serveKCP serveConn n = .ok ⟨n + serveConn.length⟩ := by
  induction serveConn generalizing n with
  | nil => rfl
  | cons r serveConn ih =>
    rw [h r List.mem_cons_self, serveKCP, ih (fun r hr => h r (List.mem_cons_of_mem _ hr)),
      List.length_cons, Nat.add_comm serveConn.length 1, Nat.add_assoc]

theorem listen_errChan_ignored (methodName : String) (e : ε) (serveConn : List (Option ε))
    (hkcp : ∀ r ∈ serveConn, r = none) :
    listen none (.errChan (some e)) serveConn = .ok ⟨serveConn.length⟩ ∧
      reportListen methodName (listen none (.errChan (some e)) serveConn) =
        .smethodArgs methodName := by
  have hok : listen none (.errChan (some e)) serveConn = .ok ⟨serveConn.length⟩ := by
    rw [listen_select_irrelevant, listen, serveKCP_of_forall_none hkcp, Nat.zero_add]
  exact ⟨hok, by rw [hok, reportListen]⟩

/-- `ListenAndServe` fails at once with "address already in use", and the single KCP instance
starts: `Listen` returns a listener, and `main` reports `SMETHOD`. -/
theorem listen_errChan_ignored_inUse :
    (∀ r ∈ ([none] : List (Option String)), r = none) ∧
      listen none (.errChan (some "listen tcp :443: bind: address already in use")) [none] =
        .ok ⟨1⟩ ∧
      reportListen "snowflake"
          (listen none (.errChan (some "listen tcp :443: bind: address already in use")) [none]) =
        .smethodArgs "snowflake" := by
  have hkcp : ∀ r ∈ ([none] : List (Option String)), r = none := by
    intro r hr
    exact List.mem_singleton.mp hr
  exact ⟨hkcp, listen_errChan_ignored "snowflake" _ [none] hkcp⟩

end Snowflake.Server
