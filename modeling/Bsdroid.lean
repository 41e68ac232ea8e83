import Bsdroid.Lib.Run
import Bsdroid.Lib.Utf16
import Bsdroid.Lib.Forest
import Bsdroid.Mtpfs.ReadRuns
import Bsdroid.Mtpfs.Listing
import Bsdroid.MtpSession.Attribution
import Bsdroid.MtpSession.SendFaults
import Bsdroid.MtpSession.Receiving
import Bsdroid.Mtpfs.SpoolRuns
import Bsdroid.Mtpfs.Readers
import Bsdroid.Mtpfs.Leaks
import Bsdroid.Mtpfs.Existence
import Bsdroid.Mtpfs.RenameWorks
import Bsdroid.Mtpfs.PutBack
import Bsdroid.Mtpfs.HandleArrays
import Bsdroid.Mtpfs.FastListing
import Bsdroid.Mtpfs.NarrowRead
import Bsdroid.Mtpfs.NamesSent
import Bsdroid.Mtpfs.Replacing
import Bsdroid.Mtpfs.AsideNames
import Bsdroid.Mtpfs.ListedNames
import Bsdroid.MtpSession.Transfers
import Bsdroid.MtpSession.Closing
import Bsdroid.MtpSession.Recovery
import Bsdroid.PtpProto.RoundTrips
import Bsdroid.PtpProto.Folding
import Bsdroid.PtpProto.Grammar
import Bsdroid.PtpProto.CutShort
import Bsdroid.UsbFreebsd.Search
import Bsdroid.Mtpfs.Caching
import Bsdroid.Mtpfs.PathOf
import Bsdroid.Mtpfs.Sparing
import Bsdroid.Mtpfs.Undoing
import Bsdroid.Mtpfs.Absence
import Bsdroid.Mtpfs.Unique
import Bsdroid.Mtpfs.NeverStale
import Bsdroid.Mtpfs.Acknowledged
import Bsdroid.Lib.Sim
import Bsdroid.Mtpfs.TwoLinks
import Bsdroid.Cellphone.Wire
import Bsdroid.Mtpfs.OverTheWire
import Bsdroid.Lib.Text
import Bsdroid.UsbFreebsd.Discover
import Bsdroid.Mtpfs.Main
import Bsdroid.Mtpfs.EditInPlace
