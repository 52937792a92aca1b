import ShipNet.IncomingAgreement
import ShipNet.PipedConnection

/-! `HandleNewBytes` of a connection whose packet pipe is a `FramedBytePacketPipe` is that
of the connection of incoming frames: what is known of either holds of both. -/
namespace ShipNet
open Fallible

variable {π δ ψ γ : Type}

/-- Protocols whose pipes read as the application's do. Nothing is said of writing. -/
structure Application.Reads (app : Application π δ γ) (protocol : Protocol π (FramedBytePacketPipe δ) ψ γ) : Prop where
  readPipe : ∀ pipe input, protocol.readPipe pipe input = do
    let (result, read, input) ← app.readBytePipe pipe.toByteBytePipe input
    pure (result, { pipe with toByteBytePipe := read }, input)
  readPacket : ∀ pipe input, protocol.readPacket pipe input = do
    let answer ← pipe.read app.readPacket input
    pure (answer.packet, answer.pipe, answer.input)
  callbacks : protocol.callbacks = app.callbacks

namespace PipedConnection

/-- The same connection, of which the other one keeps what its handlers are offered. -/
structure Shows (c : PipedConnection π (FramedBytePacketPipe δ) γ) (d : Connection π δ γ) : Prop where
  pipeline : List.Forall₂ (fun pipe partner => pipe.toByteBytePipe = partner) c.pipeline d.pipeline
  bytePacketPipe : c.bytePacketPipe = d.bytePacketPipe
  mainPacketHandler : c.mainPacketHandler = d.mainPacketHandler
  packetHandlers : c.packetHandlers = d.packetHandlers
  readerBuffer : c.readerBuffer = d.readerBuffer
  readWriteCloser : c.readWriteCloser = d.readWriteCloser
  user : c.user = d.user

variable {app : Application π δ γ} {protocol : Protocol π (FramedBytePacketPipe δ) ψ γ}
  {c : PipedConnection π (FramedBytePacketPipe δ) γ} {d : Connection π δ γ}

theorem Shows.close (shows : Shows c d) : Shows c.close d.close :=
  { shows with readWriteCloser := congrArg UnixReadWriteCloser.close shows.readWriteCloser }

private theorem setPacketBuffer_offers (d : Connection π δ γ) (buffer : ByteBufferImpl) :
    (d.setPacketBuffer buffer).offers = d.offers := by
  obtain ⟨readerBuffer, pipeline, replaced⟩ := Connection.setPacketBuffer_buffers d buffer
  rw [replaced]

theorem buffers_liken : (buffers π (FramedBytePacketPipe δ) γ).Likens (Connection.buffers π δ γ) Shows
    fun pipe partner => pipe.toByteBytePipe = partner where
  readerBuffer _ _ shows := shows.readerBuffer
  pipeline _ _ shows := shows.pipeline
  setBuffers _ _ _ _ _ shows same := { shows with pipeline := same, readerBuffer := rfl }
  pipeBuffer _ _ same := same ▸ rfl
  setPipeBuffer _ _ _ same := same ▸ rfl

/-- What a handler is offered, of what is kept of an offer. -/
def asked (_ : PipedConnection π (FramedBytePacketPipe δ) γ) (receiver : Receiver) (packet : PacketHolder)
    (_ : Unit) : Receiver × PacketHolder :=
  (receiver, packet)

/-- The record of what is asked is that of the offers. -/
structure Records (r : PipedConnection π (FramedBytePacketPipe δ) γ × List (Receiver × PacketHolder))
    (d : Connection π δ γ) : Prop where
  shows : Shows r.1 d
  offers : r.2 = d.offers.map fun offer => (offer.receiver, offer.packet)

theorem incoming_likens (reads : app.Reads protocol) :
    Incoming.Likens ((incoming protocol).recording asked) (Connection.incoming app) Records
      (fun pipe partner => pipe.toByteBytePipe = partner) fun _ _ => True where
  readerBuffer _ _ records := buffers_liken.readerBuffer _ _ records.shows
  pipeline _ _ records := buffers_liken.pipeline _ _ records.shows
  setBuffers _ _ buffer pipes others records same :=
    ⟨buffers_liken.setBuffers _ _ buffer pipes others records.shows same, records.offers⟩
  pipeBuffer := buffers_liken.pipeBuffer
  setPipeBuffer := buffers_liken.setPipeBuffer
  readPipe := by
    rintro pipe _ input rfl
    show Agree _ (protocol.readPipe pipe input) (app.readBytePipe pipe.toByteBytePipe input)
    rw [reads.readPipe]
    refine (Agree.refl _).bind_pure ?_
    rintro ⟨result, read, left⟩ _ rfl
    exact ⟨rfl, rfl⟩
  readPacket := by
    intro r d records
    show Agree _ ((protocol.readPacket r.1.bytePacketPipe r.1.packetBuffer >>= _) >>= _)
      (d.bytePacketPipe.read app.readPacket d.packetBuffer >>= _)
    have same : r.1.packetBuffer = d.packetBuffer := buffers_liken.packetBuffer records.shows
    rw [reads.readPacket, records.shows.bytePacketPipe, same]
    cases d.bytePacketPipe.read app.readPacket d.packetBuffer with
    | error fault => rfl
    | ok answer =>
      have kept := buffers_liken.setPacketBuffer records.shows answer.input
      refine ⟨rfl, trivial, { kept with bytePacketPipe := rfl }, ?_⟩
      exact records.offers.trans (congrArg _ (setPacketBuffer_offers d answer.input).symm)
  callbacks := reads.callbacks
  mainPacketHandler _ _ records := records.shows.mainPacketHandler
  packetHandlers _ _ records := records.shows.packetHandlers
  user _ _ records := records.shows.user
  handled := by
    intro r d receiver packet _ frame user buffer invocations records _
    have kept := buffers_liken.setPacketBuffer records.shows buffer
    refine ⟨{ kept with user := rfl }, ?_⟩
    have offered : List.map (fun offer : Offer => (offer.receiver, offer.packet)) [⟨receiver, packet, frame⟩] =
        [(receiver, packet)] := rfl
    have grown := congrArg (· ++ [(receiver, packet)]) records.offers
    simp only [← offered, ← List.map_append] at grown
    exact grown
  close _ _ records := ⟨records.shows.close, records.offers⟩

/-- The two ways to say what `HandleNewBytes` does agree, call after call, on the connection
and on what its handlers are offered. -/
theorem handleNewBytes_agree (reads : app.Reads protocol)
    {r : PipedConnection π (FramedBytePacketPipe δ) γ × List (Receiver × PacketHolder)} (records : Records r d)
    (page : List UInt8) :
    Agree Records (((incoming protocol).recording asked).handleNewBytes r page)
      (Connection.handleNewBytes app d page) :=
  (incoming_likens reads).handleNewBytes records page

end PipedConnection

end ShipNet
