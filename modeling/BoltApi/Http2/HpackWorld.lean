import BoltApi.Http2.Receive

/-! # A connection with the codec of the repository

The HPACK encoder and decoder of a connection, both of the default size, a stream
index that takes every id, and an application. -/
namespace BoltApi.Http2.HpackWorld
open Hpack.Tables Hpack.Codec Connection

/-- `hpack_encoder_` and `hpack_decoder_`. -/
structure Codec where
  encoder : HPACKEncoder := .create DEFAULT_MAX_SIZE
  decoder : HPACKDecoder := .create DEFAULT_MAX_SIZE

/-- The world with an application that answers each request with some calls. -/
def hpackWorld (application : Http2Stream → List Call) : World Codec where
  encode x fields capacity :=
    match x.encoder.encode fields capacity with
    | (block, e) => (block, { x with encoder := e })
  decode x block maxHeaders :=
    match x.decoder.decode block maxHeaders with
    | (status, fields, d) => (status, fields, { x with decoder := d })
  setMaxTableSize x size := { x with encoder := x.encoder.setMaxTableSize size }
  indexInsert x _ := (true, x)
  indexErase x _ := x
  onRequest c s := (application s, c.world)

end BoltApi.Http2.HpackWorld
