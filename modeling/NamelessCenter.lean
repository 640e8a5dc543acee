import NamelessCenter.Zip.Idempotence
import NamelessCenter.Zip.Coherence
import NamelessCenter.Zip.Contents
import NamelessCenter.Zip.Metadata
import NamelessCenter.Zip.Bounds
import NamelessCenter.Zip.Unfailing
import NamelessCenter.Zip.EndRecord
import NamelessCenter.Zip.Positions
import NamelessCenter.Zip.Streams
import NamelessCenter.Zip.Copying
import NamelessCenter.Zip.Inflation
import NamelessCenter.Server.SignedFile
import NamelessCenter.Server.SourceBuffer
import NamelessCenter.Delta.Leftovers
import NamelessCenter.Database.DatabaseHandler
import NamelessCenter.Database.TearDown
import NamelessCenter.Database.Atomicity
import NamelessCenter.Download.Cancel
import NamelessCenter.Download.Quiescence
import NamelessCenter.Download.Registration
import NamelessCenter.Download.Transfers
import NamelessCenter.Download.Listed
import NamelessCenter.Download.Progress
import NamelessCenter.Download.Cards
import NamelessCenter.Install.Installer
import NamelessCenter.Install.Notifications
import NamelessCenter.Install.Recovery
import NamelessCenter.Install.Checksum
import NamelessCenter.Items.Changelog
import NamelessCenter.Check.UpdateCheckService
import NamelessCenter.Check.BootCheck
import NamelessCenter.Check.Filter
import NamelessCenter.Check.Notice
import NamelessCenter.Check.BuildProp
import NamelessCenter.Vcdiff.Integers
import NamelessCenter.Vcdiff.AddressCache
import NamelessCenter.Vcdiff.CodeTable
import NamelessCenter.Vcdiff.Checksums
import NamelessCenter.Vcdiff.Resumption
import NamelessCenter.Vcdiff.Delivery
import NamelessCenter.Vcdiff.Protocol
import NamelessCenter.Vcdiff.Encoding
import NamelessCenter.Delta.Decoding
